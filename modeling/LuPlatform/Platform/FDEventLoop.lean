import LuPlatform.Library.ActionRuns
import Mathlib.Data.BitVec
import Mathlib.Data.Finset.Basic

/-! The event loop over epoll. A descriptor is registered with the address of its handler, and the
address and a descriptor share one union. -/

namespace LuPlatform.Platform

open Actions

inductive HandlerType where
  | serverSocket | dataSocket | timer | pipe
  deriving DecidableEq, Repr

structure FDEventHandler where
  fd : BitVec 32
  type : HandlerType
  deriving DecidableEq, Repr

/-- `epoll_event.data` read as a descriptor: the low half of the union. -/
def dataFd (data : BitVec 64) : BitVec 32 := data.setWidth 32

/-- The handlers that are alive, by their addresses, the epoll set, and `m_IFDEventHandlers`. What is
registered is a live handler under its own descriptor, and what is owned is alive. -/
structure FDEventLoop where
  handlers : BitVec 64 → Option FDEventHandler
  registered : BitVec 32 → Option (BitVec 64)
  owned : Finset (BitVec 64)
  /-- The descriptors that `EPOLL_CTL_DEL` took out of the set. -/
  deleted : List (BitVec 32)
  registered_live : ∀ fd ptr, registered fd = some ptr → ∃ h, handlers ptr = some h ∧ h.fd = fd
  owned_live : ∀ ptr ∈ owned, ∃ h, handlers ptr = some h

namespace FDEventLoop

/-- A loop without any descriptors, among these handlers. -/
def init (handlers : BitVec 64 → Option FDEventHandler) : FDEventLoop where
  handlers
  registered _ := none
  owned := ∅
  deleted := []
  registered_live _ _ h := by simp at h
  owned_live _ h := by simp at h

/-- `EPOLL_CTL_ADD` for a live handler. -/
def register (s : FDEventLoop) (ptr : BitVec 64) (h : FDEventHandler)
    (hptr : s.handlers ptr = some h) : FDEventLoop :=
  { s with
    registered := Function.update s.registered h.fd (some ptr)
    registered_live := by
      intro fd other hother
      by_cases hfd : fd = h.fd
      · rw [hfd, Function.update_self, Option.some.injEq] at hother
        exact ⟨h, hother ▸ hptr, hfd.symm⟩
      · rw [Function.update_of_ne hfd] at hother
        exact s.registered_live fd other hother }

/-- `add` of a handler that someone else owns. A descriptor that is in the set is not added again. -/
def add (s : FDEventLoop) (ptr : BitVec 64) (setToNonBlocking : Bool) : Bool × FDEventLoop :=
  match hptr : s.handlers ptr with
  | none => (false, s)
  | some h =>
    if setToNonBlocking && (s.registered h.fd).isNone then
      (true, s.register ptr h hptr)
    else
      (false, s)

/-- `add` of a handler that the loop is to own. -/
def addOwned (s : FDEventLoop) (ptr : BitVec 64) (setToNonBlocking : Bool) : Bool × FDEventLoop :=
  if hlive : (s.handlers ptr).isSome then
    let added := s.add ptr setToNonBlocking
    if added.1 then
      (true, { added.2 with
        owned := insert ptr added.2.owned
        owned_live := by
          have hsame : added.2.handlers = s.handlers := by
            simp only [added, add]
            split
            · rfl
            · split <;> rfl
          intro other hother
          rcases Finset.mem_insert.1 hother with heq | hother
          · rw [hsame, heq]
            exact Option.isSome_iff_exists.1 hlive
          · exact added.2.owned_live other hother })
    else
      (false, s)
  else
    (false, s)

/-- `EPOLL_CTL_DEL` changes nothing where the descriptor is not in the set. -/
def epollDel (s : FDEventLoop) (fd : BitVec 32) : FDEventLoop :=
  match s.registered fd with
  | none => s
  | some _ =>
    { s with
      registered := Function.update s.registered fd none
      deleted := s.deleted ++ [fd]
      registered_live := by
        intro other ptr hother
        by_cases hfd : other = fd
        · simp [hfd] at hother
        · rw [Function.update_of_ne hfd] at hother
          exact s.registered_live other ptr hother }

/-- `remove` asks the handler for its descriptor. -/
def remove (s : FDEventLoop) (ptr : BitVec 64) : FDEventLoop :=
  match s.handlers ptr with
  | none => s
  | some h => s.epollDel h.fd

/-- An owned handler is erased and with it destroyed. That closes its descriptor, and a closed one
leaves the epoll set. -/
def destroy (s : FDEventLoop) (ptr : BitVec 64) (h : FDEventHandler) (hptr : s.handlers ptr = some h) :
    FDEventLoop :=
  { s with
    handlers := Function.update s.handlers ptr none
    registered := Function.update s.registered h.fd none
    owned := s.owned.erase ptr
    registered_live := by
      intro fd other hother
      by_cases hfd : fd = h.fd
      · simp [hfd] at hother
      · rw [Function.update_of_ne hfd] at hother
        obtain ⟨h', hlive, hown⟩ := s.registered_live fd other hother
        have hne : other ≠ ptr := by
          intro heq
          rw [heq, hptr] at hlive
          exact hfd (by rw [← hown, Option.some.inj hlive])
        exact ⟨h', by rw [Function.update_of_ne hne]; exact hlive, hown⟩
    owned_live := by
      intro other hother
      obtain ⟨hne, hother⟩ := Finset.mem_erase.1 hother
      rw [Function.update_of_ne hne]
      exact s.owned_live other hother }

theorem epollDel_handlers (s : FDEventLoop) (fd : BitVec 32) :
    (s.epollDel fd).handlers = s.handlers := by
  unfold epollDel
  split <;> rfl

theorem epollDel_owned (s : FDEventLoop) (fd : BitVec 32) : (s.epollDel fd).owned = s.owned := by
  unfold epollDel
  split <;> rfl

/-- One event of a batch, with the result of `onEvent`. There is no next state where the handler is
gone, or where `erase` gets the end of the set. -/
def processEvent (s : FDEventLoop) (event : BitVec 64 × Bool) : Option FDEventLoop :=
  match hptr : s.handlers event.1 with
  | none => none
  | some h =>
    if event.2 then
      some s
    else if h.type = .dataSocket then
      if event.1 ∈ s.owned then
        some ((s.epollDel (dataFd event.1)).destroy event.1 h
          (by rw [epollDel_handlers]; exact hptr))
      else
        none
    else
      some (s.epollDel (dataFd event.1))

/-- What one `epoll_wait` may return: different registered handlers. -/
structure Batch (s : FDEventLoop) where
  events : List (BitVec 64 × Bool)
  distinct : (events.map Prod.fst).Nodup
  registered : ∀ event ∈ events, ∃ fd, s.registered fd = some event.1

/-- `EPOLL_CTL_DEL` takes out the handler's own descriptor, all others stay, and only a handler of
type `DataSocket` that the loop owns is destroyed. -/
structure DeregistersOnly (s : FDEventLoop) (ptr : BitVec 64) (s' : FDEventLoop) : Prop where
  own : ∃ h, s.handlers ptr = some h ∧ s'.deleted = s.deleted ++ [h.fd] ∧ s'.registered h.fd = none ∧
    ∀ fd, fd ≠ h.fd → s'.registered fd = s.registered fd
  destroyed : ∀ other h, s.handlers other = some h → s'.handlers other = none →
    other = ptr ∧ h.type = .dataSocket ∧ ptr ∈ s.owned
  others : ∀ other, s'.handlers other ≠ none → s'.handlers other = s.handlers other

/-- Each failing handler of a batch is dealt with in this way. -/
def DeregistersFailing (s : FDEventLoop) (events : List (BitVec 64 × Bool)) : Prop :=
  ∀ before ptr after s₀, events = before ++ (ptr, false) :: after →
    run processEvent s before = some s₀ →
      ∃ s', s₀.processEvent (ptr, false) = some s' ∧ DeregistersOnly s₀ ptr s'

/-- The low half of the handler's address is its descriptor, and the loop owns it if it is a
`DataSocket`. -/
def FdInAddress (s : FDEventLoop) (ptr : BitVec 64) : Prop :=
  ∃ h, s.handlers ptr = some h ∧ dataFd ptr = h.fd ∧ (h.type = .dataSocket → ptr ∈ s.owned)

/-! ### One event -/

section Event

variable {s s' : FDEventLoop} {ptr : BitVec 64} {h : FDEventHandler}

theorem processEvent_true (hptr : s.handlers ptr = some h) :
    s.processEvent (ptr, true) = some s := by
  unfold processEvent
  split
  · rename_i hnone
    exact absurd (hptr.symm.trans hnone) (by simp)
  · rfl

theorem processEvent_dataSocket (hptr : s.handlers ptr = some h) (htype : h.type = .dataSocket) :
    s.processEvent (ptr, false) =
      if ptr ∈ s.owned then
        some ((s.epollDel (dataFd ptr)).destroy ptr h (by rw [epollDel_handlers]; exact hptr))
      else
        none := by
  unfold processEvent
  split
  · rename_i hnone
    exact absurd (hptr.symm.trans hnone) (by simp)
  · rename_i h' hptr'
    obtain rfl : h = h' := Option.some.inj (hptr.symm.trans hptr')
    simp [htype]

theorem processEvent_other (hptr : s.handlers ptr = some h) (htype : h.type ≠ .dataSocket) :
    s.processEvent (ptr, false) = some (s.epollDel (dataFd ptr)) := by
  unfold processEvent
  split
  · rename_i hnone
    exact absurd (hptr.symm.trans hnone) (by simp)
  · rename_i h' hptr'
    obtain rfl : h = h' := Option.some.inj (hptr.symm.trans hptr')
    simp [htype]

theorem epollDel_none {fd : BitVec 32} (hfd : s.registered fd = none) : s.epollDel fd = s := by
  unfold epollDel
  split
  · rfl
  · rename_i hsome
    exact absurd (hfd.symm.trans hsome) (by simp)

theorem epollDel_some {fd : BitVec 32} (hfd : s.registered fd = some ptr) :
    (s.epollDel fd).registered = Function.update s.registered fd none ∧
      (s.epollDel fd).deleted = s.deleted ++ [fd] := by
  unfold epollDel
  split
  · rename_i hnone
    exact absurd (hfd.symm.trans hnone) (by simp)
  · exact ⟨rfl, rfl⟩

/-- Only the descriptor that was asked for can have been taken out. -/
theorem eq_of_epollDel_deleted {fd fd' : BitVec 32}
    (hdeleted : (s.epollDel fd).deleted = s.deleted ++ [fd']) : fd = fd' := by
  cases hfd : s.registered fd with
  | none =>
    rw [epollDel_none hfd] at hdeleted
    simp at hdeleted
  | some other =>
    rw [(epollDel_some hfd).2] at hdeleted
    simpa using hdeleted

/-- What the event of a handler leaves as it was. -/
structure Frame (s s' : FDEventLoop) (ptr : BitVec 64) : Prop where
  handlers : ∀ other, other ≠ ptr → s'.handlers other = s.handlers other
  registered : ∀ fd other, other ≠ ptr → s.registered fd = some other →
    s'.registered fd = some other
  owned : ∀ other, other ≠ ptr → (other ∈ s'.owned ↔ other ∈ s.owned)

theorem Frame.fdInAddress_iff (hframe : Frame s s' ptr) {other : BitVec 64} (hne : other ≠ ptr) :
    s'.FdInAddress other ↔ s.FdInAddress other := by
  rw [FdInAddress, hframe.handlers other hne, hframe.owned other hne]
  rfl

/-- The handlers of other events stay registered. -/
theorem Frame.registered_events (hframe : Frame s s' ptr) {events : List (BitVec 64 × Bool)}
    (hne : ∀ other result, (other, result) ∈ events → other ≠ ptr)
    (h : ∀ event ∈ events, ∃ fd, s.registered fd = some event.1) :
    ∀ event ∈ events, ∃ fd, s'.registered fd = some event.1 := by
  intro event hevent
  obtain ⟨fd, hfd⟩ := h event hevent
  exact ⟨fd, hframe.registered fd event.1 (hne event.1 event.2 hevent) hfd⟩

/-- A failing handler whose descriptor is in its address. -/
theorem processEvent_good (hptr : s.handlers ptr = some h) (hregistered : s.registered h.fd = some ptr)
    (hgood : s.FdInAddress ptr) :
    ∃ s', s.processEvent (ptr, false) = some s' ∧ DeregistersOnly s ptr s' ∧ Frame s s' ptr := by
  obtain ⟨h', hptr', hfd, howned⟩ := hgood
  obtain rfl : h = h' := Option.some.inj (hptr.symm.trans hptr')
  obtain ⟨hdel, hdeleted⟩ := epollDel_some hregistered
  have hothers : ∀ fd other, other ≠ ptr → s.registered fd = some other → fd ≠ h.fd := by
    rintro fd other hne hother rfl
    exact hne (Option.some.inj (hother.symm.trans hregistered))
  by_cases htype : h.type = .dataSocket
  · rw [processEvent_dataSocket hptr htype, if_pos (howned htype), hfd]
    refine ⟨_, rfl, ⟨⟨h, hptr, hdeleted, ?_, fun fd hne => ?_⟩, ?_, ?_⟩, ?_, ?_, ?_⟩
    · exact Function.update_self ..
    · simp only [destroy, hdel, Function.update_of_ne hne]
    · intro other h' hother hgone
      by_cases hne : other = ptr
      · subst hne
        obtain rfl : h = h' := Option.some.inj (hptr.symm.trans hother)
        exact ⟨rfl, htype, howned htype⟩
      · simp only [destroy, Function.update_of_ne hne, epollDel_handlers, hother] at hgone
        exact absurd hgone (by simp)
    · intro other hlive
      by_cases hne : other = ptr
      · simp [destroy, hne] at hlive
      · simp only [destroy, Function.update_of_ne hne, epollDel_handlers]
    · intro other hne
      simp only [destroy, Function.update_of_ne hne, epollDel_handlers]
    · intro fd other hne hother
      simp only [destroy, hdel, Function.update_of_ne (hothers fd other hne hother), hother]
    · intro other hne
      simp only [destroy, epollDel_owned, Finset.mem_erase]
      exact and_iff_right hne
  · rw [processEvent_other hptr htype, hfd]
    refine ⟨_, rfl, ⟨⟨h, hptr, hdeleted, ?_, fun fd hne => ?_⟩, ?_, ?_⟩, ?_, ?_, ?_⟩
    · rw [hdel, Function.update_self]
    · rw [hdel, Function.update_of_ne hne]
    · intro other h' hother hgone
      rw [epollDel_handlers, hother] at hgone
      exact absurd hgone (by simp)
    · intro other _
      rw [epollDel_handlers]
    · intro other _
      rw [epollDel_handlers]
    · intro fd other hne hother
      rw [hdel, Function.update_of_ne (hothers fd other hne hother), hother]
    · intro other _
      rw [epollDel_owned]

theorem fdInAddress_of_deregistersOnly (hstep : s.processEvent (ptr, false) = some s')
    (honly : DeregistersOnly s ptr s') : s.FdInAddress ptr := by
  obtain ⟨h, hptr, hdeleted, -, -⟩ := honly.own
  by_cases htype : h.type = .dataSocket
  · rw [processEvent_dataSocket hptr htype, Option.ite_none_right_eq_some, Option.some.injEq] at hstep
    obtain ⟨howned, rfl⟩ := hstep
    exact ⟨h, hptr, eq_of_epollDel_deleted hdeleted, fun _ => howned⟩
  · rw [processEvent_other hptr htype, Option.some.injEq] at hstep
    subst hstep
    exact ⟨h, hptr, eq_of_epollDel_deleted hdeleted, fun heq => absurd heq htype⟩

end Event

/-! ### A batch -/

theorem deregistersFailing_cons {s : FDEventLoop} {event : BitVec 64 × Bool}
    {events : List (BitVec 64 × Bool)} : DeregistersFailing s (event :: events) ↔
      (event.2 = false → ∃ s', s.processEvent event = some s' ∧ DeregistersOnly s event.1 s') ∧
        ∀ s', s.processEvent event = some s' → DeregistersFailing s' events := by
  constructor
  · intro h
    constructor
    · intro hfails
      obtain ⟨ptr, result⟩ := event
      subst hfails
      exact h [] ptr events s rfl rfl
    · rintro s' hstep before ptr after s₀ rfl hrun
      apply h (event :: before) ptr after s₀ rfl
      rw [run, hstep]
      exact hrun
  · rintro ⟨hfirst, hrest⟩ before ptr after s₀ hevents hrun
    cases before with
    | nil =>
      obtain ⟨rfl, -⟩ := List.cons.inj hevents
      cases hrun
      exact hfirst rfl
    | cons first before =>
      obtain ⟨rfl, htail⟩ := List.cons.inj hevents
      rw [run] at hrun
      obtain ⟨s', hstep, hrun⟩ := Option.bind_eq_some_iff.1 hrun
      exact hrest s' hstep before ptr after s₀ htail hrun

theorem deregistersFailing_iff {s : FDEventLoop} {events : List (BitVec 64 × Bool)}
    (hdistinct : (events.map Prod.fst).Nodup)
    (hregistered : ∀ event ∈ events, ∃ fd, s.registered fd = some event.1) :
    DeregistersFailing s events ↔ ∀ ptr, (ptr, false) ∈ events → s.FdInAddress ptr := by
  induction events generalizing s with
  | nil =>
    refine iff_of_true ?_ (by simp)
    intro before ptr after s₀ hevents
    simp at hevents
  | cons event events ih =>
    obtain ⟨ptr, result⟩ := event
    rw [List.map_cons, List.nodup_cons] at hdistinct
    obtain ⟨fd, hptr⟩ := hregistered (ptr, result) List.mem_cons_self
    obtain ⟨h, hlive, rfl⟩ := s.registered_live fd ptr hptr
    have hrest : ∀ event ∈ events, ∃ fd, s.registered fd = some event.1 := fun event hevent =>
      hregistered event (List.mem_cons_of_mem _ hevent)
    have hne : ∀ other result, (other, result) ∈ events → other ≠ ptr := by
      rintro other result hmem rfl
      exact hdistinct.1 (List.mem_map.2 ⟨_, hmem, rfl⟩)
    rw [deregistersFailing_cons]
    cases result with
    | true =>
      rw [processEvent_true hlive]
      simp only [Bool.true_eq_false, false_imp_iff, true_and, Option.some.injEq, forall_eq',
        ih hdistinct.2 hrest, List.mem_cons, Prod.mk.injEq, and_false, false_or,
        Bool.false_eq_true]
    | false =>
      constructor
      · rintro ⟨hfirst, hthen⟩ other hother
        obtain ⟨s', hstep, honly⟩ := hfirst rfl
        have hgood := fdInAddress_of_deregistersOnly hstep honly
        rcases List.mem_cons.1 hother with heq | hother
        · obtain ⟨rfl, -⟩ := Prod.mk.inj heq
          exact hgood
        · obtain ⟨s'', hstep', -, hframe⟩ := processEvent_good hlive hptr hgood
          obtain rfl : s' = s'' := Option.some.inj (hstep.symm.trans hstep')
          rw [← hframe.fdInAddress_iff (hne other false hother)]
          have hstill := hframe.registered_events hne hrest
          exact (ih hdistinct.2 hstill).1 (hthen s' hstep) other hother
      · intro hall
        obtain ⟨s', hstep, honly, hframe⟩ :=
          processEvent_good hlive hptr (hall ptr List.mem_cons_self)
        refine ⟨fun _ => ⟨s', hstep, honly⟩, fun s'' hstep' => ?_⟩
        obtain rfl : s' = s'' := Option.some.inj (hstep.symm.trans hstep')
        apply (ih hdistinct.2 (hframe.registered_events hne hrest)).2
        intro other hother
        rw [hframe.fdInAddress_iff (hne other false hother)]
        exact hall other (List.mem_cons_of_mem _ hother)

/-- A pipe with descriptor 5 at one address and a timer at another, whose descriptor is the low half
of the first address. -/
def exampleHandlers (ptr : BitVec 64) : Option FDEventHandler :=
  if ptr = 0x7f0000000010 then
    some ⟨5, .pipe⟩
  else if ptr = 0x7f0000002000 then
    some ⟨16, .timer⟩
  else
    none

def exampleLoop : FDEventLoop :=
  (((init exampleHandlers).add 0x7f0000000010 true).2.add 0x7f0000002000 true).2

end FDEventLoop

end LuPlatform.Platform
