import LuPlatform.Websocket.HeadLines
import LuPlatform.Websocket.RequestLine

/-! The fields a request is answered by. Of the lists among them only the first item is read where an
exception is not caught. -/

namespace LuPlatform.Websocket

open Bytes Utils DelimiterTextParser

/-- The value of the first line with that name. -/
def headerField (lines : List (List UInt8)) (name : List UInt8) : Option (List UInt8) :=
  (lines.map readField).lookup name

/-- A list up to its first separator. -/
def firstItem (list : List UInt8) : List UInt8 :=
  trim (list.take ((find separator list).getD list.length))

/-- The first item is a number or stands for nothing. -/
def NumberFirst (list : List UInt8) : Prop :=
  list ≠ [] ∧ (shown (firstItem list) = [] ∨ (stoi (shown (firstItem list))).isSome)

/-- If the lists are come to, there is something to read in them. -/
def ListsReadable (lines : List (List UInt8)) : Prop :=
  ∀ protocols, headerField lines (ascii "upgrade") = some (ascii "websocket") →
    (headerField lines (ascii "sec-websocket-key")).isSome →
    (headerField lines (ascii "connection")).map toLower = some (ascii "upgrade") →
    headerField lines (ascii "sec-websocket-protocol") = some protocols → protocols ≠ [] →
    untilNul protocols ≠ [] ∧
      ∀ version, headerField lines (ascii "sec-websocket-version") = some version →
        NumberFirst (untilNul version)

/-! ### The first item of a list -/

variable {p : DelimiterTextParser}

theorem next_start (hdelimeter : p.delimeter = separator) (hstart : p.startPos = 0) :
    (p.line = [] → ∃ error, p.next = .error error) ∧
      (p.line ≠ [] → ∃ p', p.next = .ok (shown (firstItem p.line), p')) := by
  have hfind : findFrom p.delimeter p.line p.startPos = find separator p.line := by
    simp [findFrom, hdelimeter, hstart]
  constructor
  · intro hline
    exact ⟨_, next_end hdelimeter (by simp [hline])⟩
  · intro hline
    have hlength : ¬ 0 ≥ p.line.length := by simpa using hline
    unfold DelimiterTextParser.next
    rw [hfind, firstItem]
    cases find separator p.line with
    | none =>
      simp only [next.item, hstart, if_neg hlength, List.drop_zero, Nat.sub_zero, Option.getD_none]
      exact ⟨_, rfl⟩
    | some endPos =>
      simp only [next.item, hstart, List.drop_zero, Nat.sub_zero, Option.getD_some]
      exact ⟨_, rfl⟩

theorem nextInt_ok_iff {item : List UInt8} {p' : DelimiterTextParser} (h : p.next = .ok (item, p')) :
    (∃ read, p.nextInt = .ok read) ↔ item = [] ∨ (stoi item).isSome := by
  simp only [nextInt, h, bind, Except.bind]
  cases item with
  | nil => simp [pure, Except.pure]
  | cons b rest =>
    cases hstoi : stoi (b :: rest) with
    | none => simp [throw, throwThe, MonadExceptOf.throw]
    | some value => simp [pure, Except.pure]

theorem nextInt_inside {p' : DelimiterTextParser} {value : Int} (h : p.nextInt = .ok (value, p')) :
    p'.line = p.line ∧ (value = 0 ∨ ∃ item, item <:+: p.line ∧ stoi item = some value) := by
  simp only [nextInt, bind, Except.bind] at h
  split at h
  · cases h
  · rename_i read hnext
    have hnext : p.next = .ok (read.1, read.2) := hnext
    obtain ⟨hitem, hline⟩ := next_inside hnext
    split at h
    · obtain ⟨rfl, rfl⟩ := Prod.mk.inj (Except.ok.inj h)
      exact ⟨hline, .inl rfl⟩
    · split at h
      · rename_i number hstoi
        obtain ⟨rfl, rfl⟩ := Prod.mk.inj (Except.ok.inj h)
        exact ⟨hline, .inr ⟨read.1, hitem, hstoi⟩⟩
      · cases h

/-! ### Lists -/

/-- Every item that is collected meets what every item that is handed out meets. -/
theorem collect_forall {α : Type} {next : DelimiterTextParser →
    Except (List UInt8) (α × DelimiterTextParser)} {isEnd : α → Bool} {P : α → Prop}
    {line : List UInt8} (hnext : ∀ p value p', p.line = line → next p = .ok (value, p') →
      p'.line = line ∧ (isEnd value = true ∨ P value))
    (fuel : Nat) {value : α} (hvalue : isEnd value = true ∨ P value) (hline : p.line = line) :
    ∀ item ∈ collect next isEnd fuel value p, P item := by
  induction fuel generalizing value p with
  | zero => simp [collect]
  | succ fuel ih =>
    rw [collect]
    split
    · simp
    · rename_i hend
      rw [List.forall_mem_cons]
      refine ⟨hvalue.resolve_left (by simpa using hend), ?_⟩
      split
      · simp
      · rename_i value' p' hread
        obtain ⟨hline', hvalue'⟩ := hnext p value' p' hline hread
        exact ih hvalue' hline'

/-! ### The answer -/

section Answer

variable (getBase64Hash : List UInt8 → List UInt8) (supportedProtocol : List UInt8)
  (supportedVersion : List Int)

/-- What the request object holds was taken from the text. -/
structure TakenInside (text : List UInt8) (request : HandshakeRequest) : Prop where
  keyValue : ∀ field ∈ request.keyValue, field.2 <:+: text
  upgrade : request.upgrade <:+: text
  key : request.key <:+: text
  protocols : ∀ protocol ∈ request.protocols, protocol <:+: text
  websocketVersions : ∀ version ∈ request.websocketVersions,
    ∃ item, item <:+: text ∧ stoi item = some version

theorem protocolsParse_ok_iff (protocols : List UInt8) :
    (∃ read, (ofString protocols separator).next = .ok read) ↔ untilNul protocols ≠ [] := by
  obtain ⟨hnil, hcons⟩ := next_start (p := ofString protocols separator) rfl rfl
  constructor
  · rintro ⟨read, hread⟩ hline
    obtain ⟨e, herror⟩ := hnil hline
    rw [hread] at herror
    cases herror
  · intro hline
    obtain ⟨p', hp'⟩ := hcons hline
    exact ⟨_, hp'⟩

theorem versionParse_ok_iff (protocols version : List UInt8) :
    (∃ read, ((ofString protocols separator).nextLine version).nextInt = .ok read) ↔
      NumberFirst (untilNul version) := by
  obtain ⟨hnil, hcons⟩ :=
    next_start (p := (ofString protocols separator).nextLine version) rfl rfl
  constructor
  · rintro ⟨read, hread⟩
    have hline : untilNul version ≠ [] := by
      intro hline
      obtain ⟨e, herror⟩ := hnil hline
      simp [nextInt, herror, bind, Except.bind] at hread
    obtain ⟨p', hp'⟩ := hcons hline
    exact ⟨hline, (nextInt_ok_iff hp').1 ⟨read, hread⟩⟩
  · rintro ⟨hline, hfirst⟩
    obtain ⟨p', hp'⟩ := hcons hline
    exact (nextInt_ok_iff hp').2 hfirst

theorem answerWebSocket_ok_iff (request : HandshakeRequest) (protocols version : List UInt8) :
    (∃ answered, answerWebSocket getBase64Hash request supportedProtocol supportedVersion protocols
        version = .ok answered) ↔
      untilNul protocols ≠ [] ∧ NumberFirst (untilNul version) := by
  have hseparator : ascii ", " = separator := rfl
  rw [← protocolsParse_ok_iff, ← versionParse_ok_iff protocols]
  simp only [answerWebSocket, hseparator]
  cases hprotocols : (ofString protocols separator).next with
  | error e => simp
  | ok first =>
    cases hversion : ((ofString protocols separator).nextLine version).nextInt with
    | error e => simp
    | ok number =>
      refine iff_of_true ?_ ⟨⟨first, rfl⟩, ⟨number, rfl⟩⟩
      simp only
      split
      · exact ⟨_, rfl⟩
      · exact ⟨_, rfl⟩

theorem answerWebSocket_inside {text : List UInt8} {request answered : HandshakeRequest}
    {protocols version response : List UInt8} (hrequest : TakenInside text request)
    (hprotocols : protocols <:+: text) (hversion : version <:+: text)
    (h : answerWebSocket getBase64Hash request supportedProtocol supportedVersion protocols version =
      .ok (answered, response)) : TakenInside text answered := by
  have huntil : ∀ value : List UInt8, value <:+: text → untilNul value <:+: text :=
    fun value hvalue => (List.takeWhile_prefix _).isInfix.trans hvalue
  simp only [answerWebSocket] at h
  split at h
  · cases h
  · rename_i value parser hnext
    obtain ⟨hvalue, hline⟩ := next_inside hnext
    have hitem : ∀ (p : DelimiterTextParser) item p', p.line = untilNul protocols → p.next = .ok (item, p') →
        p'.line = untilNul protocols ∧ (item.isEmpty = true ∨ item <:+: text) := by
      intro p item p' hp hread
      obtain ⟨hitem, hp'⟩ := next_inside hread
      exact ⟨hp'.trans hp, .inr (hitem.trans (hp ▸ huntil _ hprotocols))⟩
    have hitems := collect_forall hitem (protocols.length + 1)
      (.inr (hvalue.trans (huntil _ hprotocols))) hline
    split at h
    · cases h
    · rename_i number parser' hnextInt
      obtain ⟨hline', hnumber⟩ := nextInt_inside hnextInt
      have hread : ∀ (p : DelimiterTextParser) read p', p.line = untilNul version →
          p.nextInt = .ok (read, p') →
          p'.line = untilNul version ∧
            ((read == 0) = true ∨ ∃ item, item <:+: text ∧ stoi item = some read) := by
        intro p read p' hp hread
        obtain ⟨hp', hzero | ⟨item, hitem, hstoi⟩⟩ := nextInt_inside hread
        · exact ⟨hp'.trans hp, .inl (by simp [hzero])⟩
        · exact ⟨hp'.trans hp, .inr ⟨item, hitem.trans (hp ▸ huntil _ hversion), hstoi⟩⟩
      have hnumbers := collect_forall hread (version.length + 1)
        (hnumber.imp (fun hzero => by simp [hzero]) fun ⟨item, hitem, hstoi⟩ =>
          ⟨item, hitem.trans (huntil _ hversion), hstoi⟩) hline'
      have hread : TakenInside text { request with
          protocols := collect DelimiterTextParser.next List.isEmpty (protocols.length + 1) value parser
          websocketVersions :=
            collect DelimiterTextParser.nextInt (· == 0) (version.length + 1) number parser' } :=
        { hrequest with protocols := hitems, websocketVersions := hnumbers }
      split at h
      · obtain ⟨rfl, _⟩ := Prod.mk.inj (Outcome.ok.inj h)
        exact hread
      · obtain ⟨rfl, _⟩ := Prod.mk.inj (Outcome.ok.inj h)
        exact hread

/-- The checks are answered unless a list that is come to has nothing to read. -/
theorem answer_ok_iff {keyValue : KeyValue} {lines : List (List UInt8)}
    (hfind : ∀ name ∈ [ascii "upgrade", ascii "sec-websocket-key", ascii "connection",
      ascii "sec-websocket-protocol", ascii "sec-websocket-version"],
      keyValue.find name = headerField lines name) :
    (∃ answered, answer getBase64Hash supportedProtocol supportedVersion keyValue = .ok answered) ↔
      ListsReadable lines := by
  have hseparator : ascii ", " = separator := rfl
  have hupgrade := hfind (ascii "upgrade") (by simp)
  have hkey := hfind (ascii "sec-websocket-key") (by simp)
  have hconnection := hfind (ascii "connection") (by simp)
  have hprotocol := hfind (ascii "sec-websocket-protocol") (by simp)
  have hversion := hfind (ascii "sec-websocket-version") (by simp)
  simp only [answer, ListsReadable, ← hupgrade, ← hkey, ← hconnection, ← hprotocol, ← hversion,
    hseparator]
  by_cases hwebsocket : keyValue.find (ascii "upgrade") = some (ascii "websocket")
  · have htcp : (ascii "websocket" == ascii "tcp") = false := by decide
    simp only [hwebsocket, htcp, bne_self_eq_false, Bool.false_eq_true, if_false, true_imp_iff]
    cases keyValue.find (ascii "sec-websocket-key") with
    | none => simp
    | some key =>
      simp only [Option.isSome_some, true_imp_iff]
      by_cases hconnected : (keyValue.find (ascii "connection")).map toLower = some (ascii "upgrade")
      · simp only [hconnected, bne_self_eq_false, Bool.false_eq_true, if_false, true_imp_iff]
        cases keyValue.find (ascii "sec-websocket-protocol") with
        | none => simp
        | some protocols =>
          cases protocols with
          | nil => simp
          | cons b rest =>
            cases keyValue.find (ascii "sec-websocket-version") with
            | none =>
              have hparse := protocolsParse_ok_iff (b :: rest)
              cases hnext : (ofString (b :: rest) separator).next with
              | error e => simpa [hnext] using hparse
              | ok read => simpa [hnext] using hparse
            | some version =>
              have hparse := answerWebSocket_ok_iff getBase64Hash supportedProtocol supportedVersion
                { keyValue, upgrade := ascii "websocket", key } (b :: rest) version
              simpa using hparse
      · simp [hconnected]
  · refine iff_of_true ?_ fun _ h => absurd h hwebsocket
    cases hfound : keyValue.find (ascii "upgrade") with
    | none => exact ⟨_, rfl⟩
    | some upgrade =>
      have hne : (upgrade != ascii "websocket") = true := by
        rw [hfound] at hwebsocket
        simpa using hwebsocket
      simp only [hne, if_true]
      split
      · exact ⟨_, rfl⟩
      · exact ⟨_, rfl⟩

theorem answer_ne_outsideText (keyValue : KeyValue) :
    answer getBase64Hash supportedProtocol supportedVersion keyValue ≠ .outsideText := by
  have hweb : ∀ request protocols version, answerWebSocket getBase64Hash request supportedProtocol
      supportedVersion protocols version ≠ .outsideText := by
    intro request protocols version
    simp only [answerWebSocket]
    repeat' split
    all_goals simp
  simp only [answer]
  repeat' split
  all_goals first
    | exact hweb _ _ _
    | simp

/-- What is answered was taken from the text the fields came from. -/
theorem answer_inside {text : List UInt8} {keyValue : KeyValue} {answered : HandshakeRequest}
    {response : List UInt8} (hkeyValue : ∀ field ∈ keyValue, field.2 <:+: text)
    (h : answer getBase64Hash supportedProtocol supportedVersion keyValue = .ok (answered, response)) :
    TakenInside text answered := by
  have hfind : ∀ {name value}, keyValue.find name = some value → value <:+: text := by
    intro name value hvalue
    obtain ⟨before, after, hsplit, _⟩ := List.lookup_eq_some_iff.1 hvalue
    exact hkeyValue (name, value) (by simp [hsplit])
  have hmade : ∀ {upgrade key}, upgrade <:+: text → key <:+: text →
      TakenInside text { keyValue, upgrade, key } := by
    intro upgrade key hupgrade hkey
    exact ⟨hkeyValue, hupgrade, hkey, by simp, by simp⟩
  have hnil : ([] : List UInt8) <:+: text := List.nil_infix
  simp only [answer] at h
  split at h
  · obtain ⟨rfl, _⟩ := Prod.mk.inj (Outcome.ok.inj h)
    exact hmade hnil hnil
  · rename_i upgrade hupgrade
    have hupgrade := hfind hupgrade
    split at h
    · obtain ⟨rfl, _⟩ := Prod.mk.inj (Outcome.ok.inj h)
      exact hmade hupgrade hnil
    split at h
    · obtain ⟨rfl, _⟩ := Prod.mk.inj (Outcome.ok.inj h)
      exact hmade hupgrade hnil
    split at h
    · obtain ⟨rfl, _⟩ := Prod.mk.inj (Outcome.ok.inj h)
      exact hmade hupgrade hnil
    · rename_i key hkey
      have hrequest := hmade hupgrade (hfind hkey)
      split at h
      · obtain ⟨rfl, _⟩ := Prod.mk.inj (Outcome.ok.inj h)
        exact hrequest
      split at h
      · obtain ⟨rfl, _⟩ := Prod.mk.inj (Outcome.ok.inj h)
        exact hrequest
      · obtain ⟨rfl, _⟩ := Prod.mk.inj (Outcome.ok.inj h)
        exact hrequest
      · rename_i protocols _ hprotocols
        split at h
        · split at h
          · cases h
          · obtain ⟨rfl, _⟩ := Prod.mk.inj (Outcome.ok.inj h)
            exact hrequest
        · rename_i version hversion
          exact answerWebSocket_inside getBase64Hash supportedProtocol supportedVersion hrequest
            (hfind hprotocols) (hfind hversion) h

end Answer

end LuPlatform.Websocket
