import LuPlatform.Websocket.ProtocolList

/-! The request line taken apart. It passes exactly when its items, and the items of its third one,
are those of a request for the resource in a version that is supported. -/

namespace LuPlatform.Websocket

open Bytes Utils DelimiterTextParser

/-! ### What is taken lies inside -/

theorem trim_inside (item : List UInt8) : trim item <:+: item := by
  unfold trim
  split
  · exact List.infix_rfl
  · have hback : ((item.dropWhile isBlank).reverse.dropWhile isBlank).reverse <+:
        item.dropWhile isBlank := by
      rw [← List.reverse_suffix, List.reverse_reverse]
      exact List.dropWhile_suffix _
    exact hback.isInfix.trans (List.dropWhile_suffix _).isInfix

theorem next_inside {p p' : DelimiterTextParser} {item : List UInt8} (h : p.next = .ok (item, p')) :
    item <:+: p.line ∧ p'.line = p.line := by
  have hitem : ∀ endPos, next.item p endPos = .ok (item, p') → item <:+: p.line ∧ p'.line = p.line := by
    intro endPos hitem
    obtain ⟨rfl, rfl⟩ := Prod.mk.inj (Except.ok.inj hitem)
    refine ⟨?_, rfl⟩
    split
    · exact List.nil_infix
    · exact (trim_inside _).trans
        ((List.take_prefix _ _).isInfix.trans (List.drop_suffix _ _).isInfix)
  unfold next at h
  split at h
  · split at h
    · cases h
    · exact hitem _ h
  · exact hitem _ h

/-! ### Items of a line that a single character separates -/

variable {p : DelimiterTextParser} {delimeter : UInt8}

theorem next_nil (hdelimeter : p.delimeter = [delimeter]) (hline : p.line.drop p.startPos = []) :
    p.next = .error p.outOfRange :=
  next_of_exhausted (by simp [hdelimeter]) (List.drop_eq_nil_iff.1 hline)

/-- The parser hands out the items in order; it ends where the last one did. -/
theorem next_splitOn (hdelimeter : p.delimeter = [delimeter]) {text : List UInt8}
    (hline : p.line.drop p.startPos = text) (hne : text ≠ []) {item : List UInt8}
    {items : List (List UInt8)} (hitems : text.splitOn delimeter = item :: items) :
    delimeter ∉ item ∧ ∃ p', p.next = .ok (shown (trim item), p') ∧ p'.delimeter = [delimeter] ∧
      (items = [] → p'.line.drop p'.startPos = []) ∧
      (items ≠ [] → (p'.line.drop p'.startPos).splitOn delimeter = items) := by
  by_cases hmem : delimeter ∈ text
  · obtain ⟨before, after, htext, hbefore⟩ := List.eq_append_cons_of_mem hmem
    rw [htext, List.splitOn_append_cons_self_of_not_mem hbefore] at hitems
    obtain ⟨rfl, rfl⟩ := List.cons.inj hitems
    refine ⟨hbefore, ?_⟩
    have hpos : p.startPos ≤ p.line.length := by
      by_contra hgt
      rw [List.drop_eq_nil_of_le (by omega)] at hline
      exact hne hline.symm
    have hfirst : ∀ j < before.length, ¬ p.delimeter <+: (p.line.drop p.startPos).drop j := by
      intro j hlt
      rw [hdelimeter, hline, htext]
      exact not_prefix_of_not_mem hbefore hlt
    have hsplit : p.line.drop p.startPos = before ++ p.delimeter ++ after := by
      simp [hline, htext, hdelimeter]
    obtain ⟨p', hnext, hdelimeter', _, hrest⟩ := next_found hsplit hpos hfirst
    exact ⟨p', hnext, hdelimeter'.trans hdelimeter, fun h => absurd h (List.splitOn_ne_nil _ _),
      fun _ => by rw [hrest]⟩
  · rw [List.splitOn_eq_singleton hmem] at hitems
    obtain ⟨rfl, rfl⟩ := List.cons.inj hitems
    refine ⟨hmem, ?_⟩
    have hfind : findFrom p.delimeter p.line p.startPos = none :=
      findFrom_of_not_mem (by simp [hdelimeter]) (hline ▸ hmem)
    obtain ⟨p', hnext, hdelimeter', _, hrest⟩ := next_rest hline hne hfind
    exact ⟨p', hnext, hdelimeter'.trans hdelimeter, fun _ => hrest, fun h => absurd rfl h⟩

variable (delimeter) in
theorem mem_of_mem_item {items : List (List UInt8)} {item : List UInt8} {b : UInt8}
    (hitem : item ∈ items) (hb : b ∈ item) : b ∈ List.intercalate [delimeter] items := by
  induction items with
  | nil => exact absurd hitem List.not_mem_nil
  | cons first items ih =>
    cases items with
    | nil =>
      rw [List.intercalate_singleton]
      rwa [List.mem_singleton.1 hitem] at hb
    | cons second items =>
      rw [List.intercalate_cons_cons]
      rcases List.mem_cons.1 hitem with rfl | hitem
      · simp [hb]
      · exact List.mem_append_right _ (ih hitem)

theorem mem_of_mem_splitOn {text item : List UInt8} {b : UInt8}
    (hitem : item ∈ text.splitOn delimeter) (hb : b ∈ item) : b ∈ text := by
  have hmem := mem_of_mem_item delimeter hitem hb
  rwa [List.intercalate_splitOn] at hmem

/-! ### The request line -/

/-- The items of a request line that passes. -/
def MeetsRequestLine (resource line : List UInt8) : Prop :=
  ∃ httpProtocol items protocol version rest value,
    line.splitOn 32 = ascii "GET" :: resource :: httpProtocol :: items ∧
    (untilNul httpProtocol).splitOn 47 = protocol :: version :: rest ∧
    stof version = some value ∧ value.lessThan11 = false

/-- The items the parser has not handed out yet. -/
def Ahead (p : DelimiterTextParser) (delimeter : UInt8) (items : List (List UInt8)) : Prop :=
  p.delimeter = [delimeter] ∧
    (items = [] → p.line.drop p.startPos = []) ∧
    (items ≠ [] → (p.line.drop p.startPos).splitOn delimeter = items)

theorem ahead_ofView (line : List UInt8) {text : List UInt8} (htext : text = [delimeter]) :
    Ahead (ofView line text) delimeter (line.splitOn delimeter) :=
  ⟨htext, fun h => absurd h (List.splitOn_ne_nil _ _), fun _ => rfl⟩

theorem ahead_ofString (line : List UInt8) {text : List UInt8} (htext : text = [delimeter]) :
    Ahead (ofString line text) delimeter ((untilNul line).splitOn delimeter) :=
  ⟨htext, fun h => absurd h (List.splitOn_ne_nil _ _), fun _ => rfl⟩

theorem Ahead.next {items : List (List UInt8)} (h : Ahead p delimeter items) :
    (∃ error, p.next = .error error) ∨
      ∃ item rest p', items = item :: rest ∧ delimeter ∉ item ∧
        p.next = .ok (shown (trim item), p') ∧ Ahead p' delimeter rest := by
  obtain ⟨hdelimeter, hend, hrest⟩ := h
  by_cases hline : p.line.drop p.startPos = []
  · exact .inl ⟨_, next_nil hdelimeter hline⟩
  · cases items with
    | nil => exact absurd (hend rfl) hline
    | cons item rest =>
      obtain ⟨hitem, p', hnext, hp'⟩ :=
        next_splitOn hdelimeter rfl hline (hrest (List.cons_ne_nil _ _))
      exact .inr ⟨item, rest, p', rfl, hitem, hnext, hp'⟩

theorem Ahead.next_ok {item : List UInt8} {items : List (List UInt8)}
    (h : Ahead p delimeter (item :: items)) (hne : item ≠ [] ∨ items ≠ []) :
    delimeter ∉ item ∧
      ∃ p', p.next = .ok (shown (trim item), p') ∧ Ahead p' delimeter items := by
  obtain ⟨hdelimeter, _, hrest⟩ := h
  have hsplit := hrest (List.cons_ne_nil _ _)
  have hline : p.line.drop p.startPos ≠ [] := by
    intro hline
    rw [hline, List.splitOn_nil] at hsplit
    obtain ⟨rfl, rfl⟩ := List.cons.inj hsplit
    simp at hne
  obtain ⟨hitem, p', hnext, hp'⟩ := next_splitOn hdelimeter rfl hline hsplit
  exact ⟨hitem, p', hnext, hp'⟩

theorem shown_eq_iff {item value : List UInt8} (hvalue : goesOn value = true) :
    shown item = value ↔ item = value := by
  have hgoes : value ≠ [] ∧ isNull value = false := by simpa [goesOn] using hvalue
  unfold shown
  split
  · rename_i hnull
    refine iff_of_false (fun h => hgoes.1 h.symm) ?_
    rintro rfl
    rw [hgoes.2] at hnull
    cases hnull
  · rfl

theorem stof_ne_nil {text : List UInt8} {value : FloatValue} (h : stof text = some value) :
    text ≠ [] := by
  rintro rfl
  have hnone : stof [] = none := by decide
  rw [hnone] at h
  cases h

theorem nextFloat_eq_ok {item : List UInt8} {p' : DelimiterTextParser} {value : FloatValue}
    (h : p.next = .ok (item, p')) (hvalue : value.lessThan11 = false) :
    (∃ p'', p.nextFloat = .ok (value, p'')) ↔ stof item = some value := by
  have hzero : (FloatValue.finite false 0 1).lessThan11 = true := by decide
  simp only [nextFloat, h, bind, Except.bind]
  cases hitem : item with
  | nil =>
    have hnone : stof [] = none := by decide
    rw [hnone]
    refine iff_of_false ?_ (by simp)
    rintro ⟨p'', hp''⟩
    obtain ⟨rfl, _⟩ := Prod.mk.inj (Except.ok.inj hp'')
    rw [hzero] at hvalue
    cases hvalue
  | cons b rest =>
    rw [← hitem]
    simp only [show item.isEmpty = false by simp [hitem], Bool.false_eq_true, if_false]
    cases hstof : stof item with
    | none => simp [throw, throwThe, MonadExceptOf.throw]
    | some read => simp [pure, Except.pure]

/-- The request line passes when every part of it can be read and says the right thing. -/
theorem requestLine_eq_some_iff {resource line : List UInt8} :
    (∃ keyValue, requestLine resource line = some keyValue) ↔
      ∃ p₁ p₂ httpProtocol p₃ protocol p₄ version p₅,
        (ofView line (ascii " ")).next = .ok (ascii "GET", p₁) ∧
        p₁.next = .ok (resource, p₂) ∧ p₂.next = .ok (httpProtocol, p₃) ∧
        (ofString httpProtocol (ascii "/")).next = .ok (protocol, p₄) ∧
        p₄.nextFloat = .ok (version, p₅) ∧ version.lessThan11 = false := by
  simp only [requestLine, bind, Except.bind, pure, Except.pure]
  constructor
  · rintro ⟨keyValue, h⟩
    cases h₁ : (ofView line (ascii " ")).next with
    | error e => simp [h₁] at h
    | ok first =>
      obtain ⟨verb, p₁⟩ := first
      simp only [h₁] at h
      cases h₂ : p₁.next with
      | error e => simp [h₂] at h
      | ok second =>
        obtain ⟨resource', p₂⟩ := second
        simp only [h₂] at h
        cases h₃ : p₂.next with
        | error e => simp [h₃] at h
        | ok third =>
          obtain ⟨httpProtocol, p₃⟩ := third
          simp only [h₃] at h
          cases h₄ : (ofString httpProtocol (ascii "/")).next with
          | error e => simp [h₄] at h
          | ok fourth =>
            obtain ⟨protocol, p₄⟩ := fourth
            simp only [h₄] at h
            cases h₅ : p₄.nextFloat with
            | error e => simp [h₅] at h
            | ok fifth =>
              obtain ⟨version, p₅⟩ := fifth
              simp only [h₅] at h
              split at h
              · cases h
              · rename_i hchecks
                obtain ⟨⟨rfl, rfl⟩, hversion⟩ : (verb = ascii "GET" ∧ resource' = resource) ∧
                    version.lessThan11 = false := by simpa using hchecks
                exact ⟨p₁, p₂, httpProtocol, p₃, protocol, p₄, version, p₅, rfl, h₂, h₃, h₄, h₅,
                  hversion⟩
  · rintro ⟨p₁, p₂, httpProtocol, p₃, protocol, p₄, version, p₅, h₁, h₂, h₃, h₄, h₅, hversion⟩
    simp [h₁, h₂, h₃, h₄, h₅, hversion]

/-- An item that is known is found by its place alone: nothing is trimmed away. -/
theorem Ahead.next_eq {items : List (List UInt8)} {value : List UInt8} {p' : DelimiterTextParser}
    (h : Ahead p 32 items) (hnext : p.next = .ok (value, p')) (hvalue : goesOn value = true) :
    ∃ rest, items = value :: rest ∧ Ahead p' 32 rest := by
  obtain ⟨e, herror⟩ | ⟨item, rest, p'', rfl, hitem, hok, hp''⟩ := h.next
  · rw [hnext] at herror
    cases herror
  · rw [hnext, trim_of_not_mem hitem] at hok
    obtain ⟨hshown, rfl⟩ := Prod.mk.inj (Except.ok.inj hok)
    rw [(shown_eq_iff hvalue).1 hshown.symm]
    exact ⟨rest, rfl, hp''⟩

theorem stof_of_isNull {item : List UInt8} (h : isNull item = true) : stof item = none := by
  simp only [isNull, Bool.or_eq_true, beq_iff_eq] at h
  obtain (rfl | rfl) | rfl := h <;> decide

theorem splitOn_of_isNull {item : List UInt8} (h : isNull item = true) :
    ((untilNul item).splitOn 47).length = 1 := by
  simp only [isNull, Bool.or_eq_true, beq_iff_eq] at h
  obtain (rfl | rfl) | rfl := h <;> decide

/-- An item that stands for nothing is no number either way. -/
theorem stof_shown (item : List UInt8) : stof (shown item) = stof item := by
  unfold shown
  split
  · rename_i hnull
    rw [stof_of_isNull hnull]
    decide
  · rfl

/-- The version behind the protocol's name. -/
theorem httpVersion_iff {httpProtocol : List UInt8} (hblank : 32 ∉ httpProtocol)
    {value : FloatValue} (hvalue : value.lessThan11 = false) :
    (∃ protocol p₄ p₅, (ofString httpProtocol (ascii "/")).next = .ok (protocol, p₄) ∧
        p₄.nextFloat = .ok (value, p₅)) ↔
      ∃ protocol version rest, (untilNul httpProtocol).splitOn 47 = protocol :: version :: rest ∧
        stof version = some value := by
  have hslash : ascii "/" = [47] := by decide
  have hahead := ahead_ofString httpProtocol hslash
  have htrim : ∀ item ∈ (untilNul httpProtocol).splitOn 47, trim item = item := by
    intro item hitem
    refine trim_of_not_mem fun hmem => hblank ?_
    exact (List.takeWhile_prefix _).mem (mem_of_mem_splitOn hitem hmem)
  generalize (untilNul httpProtocol).splitOn 47 = items at hahead htrim
  constructor
  · rintro ⟨protocol, p₄, p₅, h₄, h₅⟩
    obtain ⟨e, herror⟩ | ⟨first, rest, p₄', rfl, _, hok, hp₄⟩ := hahead.next
    · rw [h₄] at herror
      cases herror
    rw [h₄] at hok
    obtain ⟨rfl, rfl⟩ := Prod.mk.inj (Except.ok.inj hok)
    obtain ⟨e, herror⟩ | ⟨version, rest, p₅', rfl, _, hok, _⟩ := hp₄.next
    · simp [nextFloat, herror, bind, Except.bind] at h₅
    have hread := (nextFloat_eq_ok hok hvalue).1 ⟨p₅, h₅⟩
    rw [htrim version (by simp), stof_shown] at hread
    exact ⟨first, version, rest, rfl, hread⟩
  · rintro ⟨protocol, version, rest, rfl, hversion⟩
    obtain ⟨_, p₄, h₄, hp₄⟩ := hahead.next_ok (.inr (List.cons_ne_nil _ _))
    obtain ⟨_, p₅, h₅, _⟩ := hp₄.next_ok (.inl (stof_ne_nil hversion))
    have hread : stof (shown (trim version)) = some value := by
      rwa [htrim version (by simp), stof_shown]
    obtain ⟨p₅', hp₅'⟩ := (nextFloat_eq_ok h₅ hvalue).2 hread
    exact ⟨_, p₄, p₅', h₄, hp₅'⟩

/-- A request line passes exactly when its items are the right ones. -/
theorem requestLine_eq_some {resource line : List UInt8} (hresource : goesOn resource = true) :
    (∃ keyValue, requestLine resource line = some keyValue) ↔ MeetsRequestLine resource line := by
  have hblank : ascii " " = [32] := by decide
  have hget : goesOn (ascii "GET") = true := by decide
  rw [requestLine_eq_some_iff]
  constructor
  · rintro ⟨p₁, p₂, httpProtocol, p₃, protocol, p₄, version, p₅, h₁, h₂, h₃, h₄, h₅, hversion⟩
    obtain ⟨items₁, hitems, hp₁⟩ := (ahead_ofView line hblank).next_eq h₁ hget
    obtain ⟨items₂, rfl, hp₂⟩ := hp₁.next_eq h₂ hresource
    obtain ⟨e, herror⟩ | ⟨item, items, p₃', rfl, hitem, hok, _⟩ := hp₂.next
    · rw [h₃] at herror
      cases herror
    rw [h₃, trim_of_not_mem hitem] at hok
    obtain ⟨rfl, rfl⟩ := Prod.mk.inj (Except.ok.inj hok)
    have hshown : shown item = item := by
      by_contra hne
      have hnil : shown item = [] := by
        unfold shown at hne ⊢
        split
        · rfl
        · rename_i hnull
          exact absurd (if_neg hnull) hne
      rw [hnil] at h₄
      have hend : (ofString [] (ascii "/")).next = .error (ofString [] (ascii "/")).outOfRange := by
        decide
      rw [hend] at h₄
      cases h₄
    rw [hshown] at h₄
    obtain ⟨protocol', version', rest, hsplit, hread⟩ :=
      (httpVersion_iff hitem hversion).1 ⟨protocol, p₄, p₅, h₄, h₅⟩
    exact ⟨item, items, protocol', version', rest, version, hitems, hsplit, hread, hversion⟩
  · rintro ⟨httpProtocol, items, protocol, version, rest, value, hitems, hsplit, hread, hvalue⟩
    have hahead := ahead_ofView line hblank
    rw [hitems] at hahead
    obtain ⟨hverb, p₁, h₁, hp₁⟩ := hahead.next_ok (.inr (List.cons_ne_nil _ _))
    obtain ⟨hitem, p₂, h₂, hp₂⟩ := hp₁.next_ok (.inr (List.cons_ne_nil _ _))
    have hne : httpProtocol ≠ [] := by
      rintro rfl
      simp [untilNul] at hsplit
    obtain ⟨hhttp, p₃, h₃, _⟩ := hp₂.next_ok (.inl hne)
    rw [trim_of_not_mem hverb, (shown_eq_iff hget).2 rfl] at h₁
    rw [trim_of_not_mem hitem, (shown_eq_iff hresource).2 rfl] at h₂
    have hnull : isNull httpProtocol = false := by
      by_contra hnull
      have hlength := splitOn_of_isNull (by simpa using hnull)
      simp [hsplit] at hlength
    rw [trim_of_not_mem hhttp, shown, hnull] at h₃
    obtain ⟨protocol', p₄, p₅, h₄, h₅⟩ :=
      (httpVersion_iff hhttp hvalue).2 ⟨protocol, version, rest, hsplit, hread⟩
    exact ⟨p₁, p₂, httpProtocol, p₃, protocol', p₄, value, p₅, h₁, h₂, h₃, h₄, h₅, hvalue⟩

end LuPlatform.Websocket
