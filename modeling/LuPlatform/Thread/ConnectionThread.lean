import LuPlatform.Library.ActionRuns
import LuPlatform.Websocket.Handshake

/-! The thread that makes outgoing connections, for a data socket with `startHandshake`. What a
WebSocket service asks for is kept in a list of its own and found again by host and port. -/

namespace LuPlatform.Thread

open Actions Bytes Websocket

/-- The request with the port, which no line of it shows. -/
structure WebsocketService extends InitialRequestInfo where
  port : List UInt8
  deriving DecidableEq, Repr

structure Service where
  host : List UInt8
  service : List UInt8
  isWebSocket : Bool
  /-- Whether `getDataSocket()` of its connection is there. -/
  hasDataSocket : Bool
  /-- Its place among all services, and what it was registered with. -/
  id : Nat
  registeredWith : Option WebsocketService
  deriving DecidableEq, Repr

inductive ConnectEvent where
  | onConnection (id : Nat)
  | startHandshake (id : Nat) (info : WebsocketService)
  | addToEventLoop (id : Nat)
  deriving DecidableEq, Repr

def ConnectEvent.id : ConnectEvent → Nat
  | .onConnection id => id
  | .startHandshake id _ => id
  | .addToEventLoop id => id

def ConnectEvent.handshakeOf : ConnectEvent → Option Nat
  | .startHandshake id _ => some id
  | _ => none

structure ConnectionThread where
  services : List Service := []
  websocketServices : List WebsocketService := []
  /-- Every service that was ever put into `services`. -/
  registered : List Service := []
  events : List ConnectEvent := []

inductive ConnectAction where
  | connectTo (host service : List UInt8) (duplicateCheck : Bool)
  | connectToWebsocket (initialRequestInfo : WebsocketService) (duplicateCheck : Bool)
  /-- The attempts that are successful, by the service. -/
  | connect (succeeds : Nat → Bool)

/-- The info is for this host and port. -/
def WebsocketService.isFor (info : WebsocketService) (host port : List UInt8) : Bool :=
  info.host = host && info.port = port

/-- What happens to a service with a new connection. -/
def Service.connectedEvents (websocketServices : List WebsocketService) (item : Service) :
    List ConnectEvent :=
  let handshake :=
    if item.isWebSocket then
      match websocketServices.find? (·.isFor item.host item.service) with
      | some info => [ConnectEvent.startHandshake item.id info]
      | none => []
    else
      []
  [.onConnection item.id] ++ handshake ++ [.addToEventLoop item.id]

namespace ConnectionThread

def register (t : ConnectionThread) (item : Service) : ConnectionThread :=
  { t with services := t.services ++ [item], registered := t.registered ++ [item] }

def connectTo (t : ConnectionThread) (host service : List UInt8) (duplicateCheck : Bool) :
    ConnectionThread :=
  if duplicateCheck && t.services.any (fun item => item.host = host && item.service = service) then
    t
  else
    t.register ⟨host, service, false, false, t.registered.length, none⟩

def connectToWebsocket (t : ConnectionThread) (initialRequestInfo : WebsocketService)
    (duplicateCheck : Bool) : ConnectionThread :=
  if duplicateCheck &&
      t.websocketServices.any (·.isFor initialRequestInfo.host initialRequestInfo.port) then
    t
  else
    { t.register ⟨initialRequestInfo.host, initialRequestInfo.port, true, false,
        t.registered.length, some initialRequestInfo⟩ with
      websocketServices := t.websocketServices ++ [initialRequestInfo] }

/-- The loop of `connect()`: the services that stay, and what happens to the others. -/
def connectServices (websocketServices : List WebsocketService) (succeeds : Nat → Bool) :
    List Service → List Service × List ConnectEvent
  | [] => ([], [])
  | item :: items =>
    let rest := connectServices websocketServices succeeds items
    if item.hasDataSocket then
      (item :: rest.1, rest.2)
    else if succeeds item.id then
      (rest.1, item.connectedEvents websocketServices ++ rest.2)
    else
      (item :: rest.1, rest.2)

def connect (t : ConnectionThread) (succeeds : Nat → Bool) : ConnectionThread :=
  { t with
    services := (connectServices t.websocketServices succeeds t.services).1
    events := t.events ++ (connectServices t.websocketServices succeeds t.services).2 }

def act (t : ConnectionThread) : ConnectAction → ConnectionThread
  | .connectTo host service duplicateCheck => t.connectTo host service duplicateCheck
  | .connectToWebsocket initialRequestInfo duplicateCheck =>
    t.connectToWebsocket initialRequestInfo duplicateCheck
  | .connect succeeds => t.connect succeeds

def step (t : ConnectionThread) (a : ConnectAction) : Option ConnectionThread := some (t.act a)

/-- Whoever connected had one handshake, with the info it was registered with, and the others are
queued in order. -/
structure OwnHandshakes (t : ConnectionThread) : Prop where
  handshake : ∀ item ∈ t.registered, ∀ info, item.registeredWith = some info →
    .onConnection item.id ∈ t.events →
      t.events.filter (·.handshakeOf = some item.id) = [.startHandshake item.id info]
  queued : t.services = t.registered.filter fun item => .onConnection item.id ∉ t.events

/-- A WebSocket service that connects was the first one, or asks for the same, of all that were ever
registered with its host and port. -/
def FirstIsOwn : ConnectAction → ConnectionThread → Prop
  | .connect succeeds, t => ∀ item ∈ t.services, succeeds item.id = true →
      ∀ info, item.registeredWith = some info →
        ∀ before first after, t.websocketServices = before ++ first :: after →
          first.isFor info.host info.port = true →
            (∀ other ∈ before, other.isFor info.host info.port = false) → first = info
  | _, _ => True

/-! ### What holds of the two lists -/

structure Consistent (t : ConnectionThread) : Prop where
  ids : t.registered.map Service.id = List.range t.registered.length
  queued : t.services = t.registered.filter fun item => .onConnection item.id ∉ t.events
  idle : ∀ item ∈ t.registered, item.hasDataSocket = false
  plain : ∀ item ∈ t.registered, item.registeredWith = none → item.isWebSocket = false
  websocket : ∀ item ∈ t.registered, ∀ info, item.registeredWith = some info →
    item.isWebSocket = true ∧ item.host = info.host ∧ item.service = info.port ∧
      info ∈ t.websocketServices
  known : ∀ e ∈ t.events, e.id < t.registered.length
  silent : ∀ id, .onConnection id ∉ t.events → ∀ e ∈ t.events, e.handshakeOf ≠ some id

theorem Consistent.initial : Consistent {} := by
  constructor <;> simp

theorem connectServices_eq {websocketServices : List WebsocketService} {succeeds : Nat → Bool}
    {items : List Service} (hidle : ∀ item ∈ items, item.hasDataSocket = false) :
    connectServices websocketServices succeeds items =
      (items.filter fun item => !succeeds item.id,
        (items.filter fun item => succeeds item.id).flatMap
          (·.connectedEvents websocketServices)) := by
  induction items with
  | nil => rfl
  | cons item items ih =>
    rw [connectServices, ih fun other hother => hidle other (List.mem_cons_of_mem _ hother),
      hidle item List.mem_cons_self]
    cases hsucceeds : succeeds item.id <;> simp [hsucceeds]

theorem Consistent.register {t : ConnectionThread} (h : t.Consistent) {item : Service}
    (hid : item.id = t.registered.length) : (t.register item).services =
      (t.register item).registered.filter fun item => .onConnection item.id ∉ t.events := by
  have hnew : .onConnection item.id ∉ t.events := by
    intro hmem
    have hlt := h.known _ hmem
    rw [ConnectEvent.id, hid] at hlt
    omega
  simp only [ConnectionThread.register, List.filter_append]
  rw [← h.queued]
  simp [hnew]

theorem Consistent.ids_concat {t : ConnectionThread} (h : t.Consistent) {item : Service}
    (hid : item.id = t.registered.length) : (t.registered ++ [item]).map Service.id =
      List.range (t.registered ++ [item]).length := by
  rw [List.map_append, h.ids, List.length_append, List.length_singleton, List.range_succ,
    List.map_singleton, hid]

theorem Consistent.connectTo {t : ConnectionThread} (h : t.Consistent) (host service : List UInt8)
    (duplicateCheck : Bool) : (t.connectTo host service duplicateCheck).Consistent := by
  unfold ConnectionThread.connectTo
  split
  · exact h
  · refine ⟨h.ids_concat rfl, h.register rfl, ?_, ?_, ?_, ?_, h.silent⟩
    · simpa [ConnectionThread.register, or_imp, forall_and] using h.idle
    · simpa [ConnectionThread.register, or_imp, forall_and] using h.plain
    · simpa [ConnectionThread.register, or_imp, forall_and] using h.websocket
    · intro e he
      have hlt := h.known e he
      simp only [ConnectionThread.register, List.length_append, List.length_singleton]
      omega

theorem Consistent.connectToWebsocket {t : ConnectionThread} (h : t.Consistent)
    (info : WebsocketService) (duplicateCheck : Bool) :
    (t.connectToWebsocket info duplicateCheck).Consistent := by
  unfold ConnectionThread.connectToWebsocket
  split
  · exact h
  · refine ⟨h.ids_concat rfl, h.register rfl, ?_, ?_, ?_, ?_, h.silent⟩
    · simpa [ConnectionThread.register, or_imp, forall_and] using h.idle
    · simpa [ConnectionThread.register, or_imp, forall_and] using h.plain
    · intro item hitem other hother
      rcases List.mem_append.1 hitem with hitem | hitem
      · obtain ⟨hkind, hhost, hport, hmem⟩ := h.websocket item hitem other hother
        exact ⟨hkind, hhost, hport, List.mem_append_left _ hmem⟩
      · obtain rfl := List.mem_singleton.1 hitem
        obtain rfl := Option.some.inj hother
        exact ⟨rfl, rfl, rfl, by simp⟩
    · intro e he
      have hlt := h.known e he
      simp only [ConnectionThread.register, List.length_append, List.length_singleton]
      omega

/-! ### One call of `connect()` -/

theorem connectedEvents_id {websocketServices : List WebsocketService} {item : Service}
    {e : ConnectEvent} (he : e ∈ item.connectedEvents websocketServices) : e.id = item.id := by
  simp only [Service.connectedEvents, List.mem_append, List.mem_singleton] at he
  rcases he with (rfl | he) | rfl
  · rfl
  · split at he
    · split at he
      · rw [List.mem_singleton.1 he]
        rfl
      · exact absurd he List.not_mem_nil
    · exact absurd he List.not_mem_nil
  · rfl

/-- What the round says: the events of the services that connect. -/
def newEvents (t : ConnectionThread) (succeeds : Nat → Bool) : List ConnectEvent :=
  (t.services.filter fun item => succeeds item.id).flatMap (·.connectedEvents t.websocketServices)

theorem Consistent.mem_services {t : ConnectionThread} (h : t.Consistent) {item : Service} :
    item ∈ t.services ↔ item ∈ t.registered ∧ .onConnection item.id ∉ t.events := by
  rw [h.queued, List.mem_filter]
  simp

theorem Consistent.connect_eq {t : ConnectionThread} (h : t.Consistent) (succeeds : Nat → Bool) :
    t.connect succeeds =
      { t with
        services := t.services.filter fun item => !succeeds item.id
        events := t.events ++ t.newEvents succeeds } := by
  rw [ConnectionThread.connect, connectServices_eq fun item hitem =>
    h.idle item (h.mem_services.1 hitem).1]
  rfl

theorem mem_newEvents {t : ConnectionThread} {succeeds : Nat → Bool} {e : ConnectEvent} :
    e ∈ t.newEvents succeeds ↔ ∃ item ∈ t.services, succeeds item.id = true ∧
      e ∈ item.connectedEvents t.websocketServices := by
  simp only [newEvents, List.mem_flatMap, List.mem_filter, and_assoc]

theorem onConnection_mem_newEvents {t : ConnectionThread} {succeeds : Nat → Bool} {item : Service}
    (hitem : item ∈ t.services) :
    .onConnection item.id ∈ t.newEvents succeeds ↔ succeeds item.id = true := by
  rw [mem_newEvents]
  constructor
  · rintro ⟨other, -, hsucceeds, he⟩
    have hid : item.id = other.id := connectedEvents_id he
    rw [hid]
    exact hsucceeds
  · intro hsucceeds
    exact ⟨item, hitem, hsucceeds, by simp [Service.connectedEvents]⟩

theorem Consistent.eq_of_id {t : ConnectionThread} (h : t.Consistent) {item other : Service}
    (hitem : item ∈ t.registered) (hother : other ∈ t.registered) (hid : item.id = other.id) :
    item = other := by
  have hnodup : (t.registered.map Service.id).Nodup := h.ids ▸ List.nodup_range
  exact List.inj_on_of_nodup_map hnodup hitem hother hid

/-- The services that do not connect stay queued. -/
theorem Consistent.queued_connect {t : ConnectionThread} (h : t.Consistent) (succeeds : Nat → Bool) :
    (t.services.filter fun item => !succeeds item.id) =
      t.registered.filter fun item => .onConnection item.id ∉ t.events ++ t.newEvents succeeds := by
  rw [h.queued, List.filter_filter]
  apply List.filter_congr
  intro item hitem
  by_cases hconnected : .onConnection item.id ∈ t.events
  · simp [hconnected]
  · have hnew : .onConnection item.id ∈ t.newEvents succeeds ↔ succeeds item.id = true :=
      onConnection_mem_newEvents (h.mem_services.2 ⟨hitem, hconnected⟩)
    simp [hconnected, hnew]

theorem Consistent.connect {t : ConnectionThread} (h : t.Consistent) (succeeds : Nat → Bool) :
    (t.connect succeeds).Consistent := by
  rw [h.connect_eq]
  refine ⟨h.ids, h.queued_connect succeeds, h.idle, h.plain, h.websocket, ?_, ?_⟩
  · intro e he
    rcases List.mem_append.1 he with he | he
    · exact h.known e he
    · obtain ⟨item, hitem, -, he⟩ := mem_newEvents.1 he
      rw [connectedEvents_id he, ← List.mem_range, ← h.ids]
      exact List.mem_map_of_mem (h.mem_services.1 hitem).1
  · intro id hid e he hof
    rw [List.mem_append, not_or] at hid
    rcases List.mem_append.1 he with he | he
    · exact h.silent id hid.1 e he hof
    · obtain ⟨item, hitem, hsucceeds, he⟩ := mem_newEvents.1 he
      have heid : e.id = id := by
        cases e <;> simp_all [ConnectEvent.handshakeOf, ConnectEvent.id]
      rw [connectedEvents_id he] at heid
      apply hid.2
      rw [← heid, onConnection_mem_newEvents hitem]
      exact hsucceeds

theorem Consistent.act {t : ConnectionThread} (h : t.Consistent) (a : ConnectAction) :
    (t.act a).Consistent := by
  cases a with
  | connectTo host service duplicateCheck => exact h.connectTo host service duplicateCheck
  | connectToWebsocket info duplicateCheck => exact h.connectToWebsocket info duplicateCheck
  | connect succeeds => exact h.connect succeeds

theorem flatMap_eq_of_nodup {α β : Type} {l : List α} {f : α → List β} {x : α} (h : l.Nodup)
    (hx : x ∈ l) (hothers : ∀ y ∈ l, y ≠ x → f y = []) : l.flatMap f = f x := by
  induction l with
  | nil => exact absurd hx List.not_mem_nil
  | cons y l ih =>
    obtain ⟨hy, hl⟩ := List.nodup_cons.1 h
    rw [List.flatMap_cons]
    by_cases hyx : y = x
    · subst hyx
      have hrest : l.flatMap f = [] := by
        rw [List.flatMap_eq_nil_iff]
        intro z hz
        exact hothers z (List.mem_cons_of_mem _ hz) fun heq => hy (heq ▸ hz)
      rw [hrest, List.append_nil]
    · rw [hothers y List.mem_cons_self hyx, List.nil_append]
      exact ih hl ((List.mem_cons.1 hx).resolve_left fun heq => hyx heq.symm)
        fun z hz => hothers z (List.mem_cons_of_mem _ hz)

theorem filter_connectedEvents_of_ne {websocketServices : List WebsocketService} {item : Service}
    {id : Nat} (h : item.id ≠ id) :
    (item.connectedEvents websocketServices).filter (·.handshakeOf = some id) = [] := by
  rw [List.filter_eq_nil_iff]
  intro e he hof
  apply h
  rw [← connectedEvents_id he]
  cases e <;> simp_all [ConnectEvent.handshakeOf, ConnectEvent.id]

/-- A WebSocket service that connects in this round has one handshake, with the first info for its
host and port. -/
theorem Consistent.handshake_connect {t : ConnectionThread} (h : t.Consistent)
    {succeeds : Nat → Bool} {item : Service} (hitem : item ∈ t.services)
    (hsucceeds : succeeds item.id = true) {info : WebsocketService}
    (hinfo : item.registeredWith = some info) :
    ∃ first, t.websocketServices.find? (·.isFor info.host info.port) = some first ∧
      (t.events ++ t.newEvents succeeds).filter (·.handshakeOf = some item.id) =
        [.startHandshake item.id first] := by
  obtain ⟨hregistered, hconnected⟩ := h.mem_services.1 hitem
  obtain ⟨hkind, hhost, hport, hmem⟩ := h.websocket item hregistered info hinfo
  have hfound : (t.websocketServices.find? (·.isFor info.host info.port)).isSome := by
    rw [List.find?_isSome]
    exact ⟨info, hmem, by simp [WebsocketService.isFor]⟩
  obtain ⟨first, hfirst⟩ := Option.isSome_iff_exists.1 hfound
  refine ⟨first, hfirst, ?_⟩
  have hold : t.events.filter (·.handshakeOf = some item.id) = [] := by
    rw [List.filter_eq_nil_iff]
    intro e he hof
    exact h.silent item.id hconnected e he (by simpa using hof)
  have hnodup : (t.services.filter fun item => succeeds item.id).Nodup := by
    have hregisteredNodup : t.registered.Nodup :=
      List.Nodup.of_map Service.id (h.ids ▸ List.nodup_range)
    rw [h.queued]
    exact (hregisteredNodup.filter _).filter _
  rw [List.filter_append, hold, List.nil_append, newEvents, List.filter_flatMap]
  rw [flatMap_eq_of_nodup hnodup (List.mem_filter.2 ⟨hitem, hsucceeds⟩)]
  · simp [Service.connectedEvents, hkind, hhost, hport, hfirst, ConnectEvent.handshakeOf]
  · intro other hother hne
    apply filter_connectedEvents_of_ne
    intro hid
    apply hne
    have hmem := h.mem_services.1 (List.mem_of_mem_filter hother)
    exact h.eq_of_id hmem.1 hregistered hid

/-! ### One action -/

/-- The first of several by a declarative description. -/
theorem find?_eq_some_iff_first {infos : List WebsocketService} {info : WebsocketService} :
    (∀ before first after, infos = before ++ first :: after →
      first.isFor info.host info.port = true →
        (∀ other ∈ before, other.isFor info.host info.port = false) → first = info) ↔
      ∀ first, infos.find? (·.isFor info.host info.port) = some first → first = info := by
  constructor
  · intro h first hfind
    obtain ⟨hfor, before, after, hinfos, hothers⟩ := List.find?_eq_some_iff_append.1 hfind
    exact h before first after hinfos hfor (by simpa using hothers)
  · intro h before first after hinfos hfor hothers
    apply h first
    exact List.find?_eq_some_iff_append.2 ⟨hfor, before, after, hinfos, by simpa using hothers⟩

/-- A registration connects nothing. -/
theorem OwnHandshakes.registers {t t' : ConnectionThread} (h : t.OwnHandshakes) (ht : t.Consistent)
    (ht' : t'.Consistent) (hevents : t'.events = t.events)
    (hregistered : ∀ item ∈ t'.registered, item ∈ t.registered ∨ item.id = t.registered.length) :
    t'.OwnHandshakes := by
  refine ⟨fun item hitem info hinfo hconnected => ?_, ht'.queued⟩
  rw [hevents] at hconnected ⊢
  rcases hregistered item hitem with hitem | hid
  · exact h.handshake item hitem info hinfo hconnected
  · have hlt := ht.known _ hconnected
    rw [ConnectEvent.id, hid] at hlt
    omega

theorem mem_register {t : ConnectionThread} {item new : Service}
    (hid : new.id = t.registered.length) (h : item ∈ (t.register new).registered) :
    item ∈ t.registered ∨ item.id = t.registered.length := by
  rcases List.mem_append.1 h with h | h
  · exact .inl h
  · rw [List.mem_singleton.1 h]
    exact .inr hid

theorem OwnHandshakes.connect_iff {t : ConnectionThread} (h : t.OwnHandshakes) (ht : t.Consistent)
    (succeeds : Nat → Bool) :
    (t.connect succeeds).OwnHandshakes ↔ FirstIsOwn (.connect succeeds) t := by
  simp only [FirstIsOwn, find?_eq_some_iff_first]
  constructor
  · intro hown item hitem hsucceeds info hinfo first hfirst
    obtain ⟨found, hfound, hfilter⟩ := ht.handshake_connect hitem hsucceeds hinfo
    have hhandshake := hown.handshake item
    rw [ht.connect_eq] at hhandshake
    have hconnected : .onConnection item.id ∈ t.events ++ t.newEvents succeeds :=
      List.mem_append_right _ ((onConnection_mem_newEvents hitem).2 hsucceeds)
    have hown := hhandshake (ht.mem_services.1 hitem).1 info hinfo hconnected
    rw [hfilter] at hown
    rw [hfirst] at hfound
    simp_all
  · intro hfirst
    refine ⟨?_, (ht.connect succeeds).queued⟩
    rw [ht.connect_eq]
    intro item hitem info hinfo hconnected
    by_cases hbefore : .onConnection item.id ∈ t.events
    · -- who connected before takes no part in this round
      have hnone : (t.newEvents succeeds).filter (·.handshakeOf = some item.id) = [] := by
        rw [newEvents, List.filter_flatMap, List.flatMap_eq_nil_iff]
        intro other hother
        apply filter_connectedEvents_of_ne
        intro hid
        have hmem := ht.mem_services.1 (List.mem_of_mem_filter hother)
        exact hmem.2 (hid ▸ hbefore)
      rw [List.filter_append, hnone, List.append_nil]
      exact h.handshake item hitem info hinfo hbefore
    · have hqueued := ht.mem_services.2 ⟨hitem, hbefore⟩
      have hsucceeds := (onConnection_mem_newEvents hqueued).1
        ((List.mem_append.1 hconnected).resolve_left hbefore)
      obtain ⟨first, hfound, hfilter⟩ := ht.handshake_connect hqueued hsucceeds hinfo
      rw [hfilter, hfirst item hqueued hsucceeds info hinfo first hfound]

theorem OwnHandshakes.act_iff {t : ConnectionThread} (h : t.OwnHandshakes) (ht : t.Consistent)
    (a : ConnectAction) : (t.act a).OwnHandshakes ↔ FirstIsOwn a t := by
  cases a with
  | connect succeeds => exact h.connect_iff ht succeeds
  | connectTo host service duplicateCheck =>
    refine iff_of_true (h.registers ht (ht.connectTo host service duplicateCheck) ?_ ?_) trivial
    · simp only [act, connectTo]
      split <;> rfl
    · simp only [act, connectTo]
      split
      · exact fun item hitem => .inl hitem
      · exact fun item => mem_register rfl
  | connectToWebsocket info duplicateCheck =>
    refine iff_of_true (h.registers ht (ht.connectToWebsocket info duplicateCheck) ?_ ?_) trivial
    · simp only [act, connectToWebsocket]
      split <;> rfl
    · simp only [act, connectToWebsocket]
      split
      · exact fun item hitem => .inl hitem
      · exact fun item => mem_register rfl

/-! ### Runs -/

theorem consistent_of_run {actions : List ConnectAction} {t : ConnectionThread}
    (hrun : run step {} actions = some t) : t.Consistent := by
  apply run_invariant (P := fun _ t => t.Consistent) .initial _ hrun
  intro actions t a t' _ ht hstep
  cases hstep
  exact ht.act a

/-- In every state of a run all WebSocket services that connected had their own handshake if and only
if none of them connects whose host and port were first registered with another request. -/
theorem own_handshakes_iff (actions : List ConnectAction) :
    Always step {} (fun _ t => t.OwnHandshakes) actions ↔ EachStep step {} FirstIsOwn actions := by
  apply always_iff_eachStep _ _ (run_total (f := act) {} actions)
  · exact ⟨fun item hitem => absurd hitem List.not_mem_nil, rfl⟩
  · intro before a _ t t' _ hbefore halways _ hstep
    cases hstep
    exact (halways.last hbefore).act_iff (consistent_of_run hbefore) a

/-- A request for one resource of a host. -/
def exampleService (resourceName : List UInt8) : WebsocketService where
  resourceName
  host := ascii "host"
  upgrade := ascii "websocket"
  origin := []
  wsVersion := ascii "13"
  extensions := []
  protocols := []
  headers := []
  port := ascii "80"

/-- Two resources of one host, registered without the duplicate check: the second connection asks
for the first resource. -/
theorem second_resource_lost :
    ∃ t, run step {} [.connectToWebsocket (exampleService (ascii "/chat")) false,
        .connectToWebsocket (exampleService (ascii "/news")) false, .connect fun _ => true] = some t ∧
      t.events = [.onConnection 0, .startHandshake 0 (exampleService (ascii "/chat")),
        .addToEventLoop 0, .onConnection 1, .startHandshake 1 (exampleService (ascii "/chat")),
        .addToEventLoop 1] ∧
      (t.registered.map (·.registeredWith)) = [some (exampleService (ascii "/chat")),
        some (exampleService (ascii "/news"))] ∧ ¬ t.OwnHandshakes := by
  refine ⟨_, rfl, by decide, rfl, fun h => ?_⟩
  have hown := h.handshake ⟨ascii "host", ascii "80", true, false, 1,
    some (exampleService (ascii "/news"))⟩ (by decide) _ rfl (by decide)
  exact absurd hown (by decide)

end ConnectionThread

end LuPlatform.Thread
