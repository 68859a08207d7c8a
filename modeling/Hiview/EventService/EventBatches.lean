import Hiview.EventRaw.TextSize
import Hiview.EventService.QueryDelivery

/-! The batches that reach the caller. `TransportSysEvent` keeps the texts of the events and
their sequences in two vectors, with the size of the texts beside them, and hands both to
`OnQuery` when they are full; `EventQueryWrapper` has the events themselves in their place. -/
namespace Hiview.EventService
open EventStore EventRaw
open List hiding length

/-- What `TransportSysEvent` works on, with the arguments of the calls of `OnQuery`. -/
structure EventTransport where
  uid : Int
  queryLimit : Int
  maxEvents : Int
  totalEventCnt : Nat
  cachedEvents : List (List UInt16)
  cachedSeqs : List Int
  cachedEventTotalSize : Int
  onQuery : List (List (List UInt16) × List Int)

/-- A result list, with the limit under which it was asked for. -/
structure QueryRound where
  queryLimit : Int
  result : List Entry
  limited : 0 ≤ queryLimit ∧ queryLimit ≤ maxQueryEvents

namespace EventTransport
open EventQueryWrapper (admissible eventJsonSize)
variable (env : ServiceEnv)

def new (uid maxEvents : Int) : EventTransport := ⟨uid, 0, maxEvents, 0, [], [], 0, []⟩

def transportCachedEvents (transport : EventTransport) : EventTransport :=
  if transport.cachedEvents.isEmpty then transport
  else { transport with
    onQuery := transport.onQuery ++ [(transport.cachedEvents, transport.cachedSeqs)]
    cachedEvents := [], cachedSeqs := [], cachedEventTotalSize := 0 }

def cacheEvent (transport : EventTransport) (entry : Entry) : EventTransport :=
  let size := eventJsonSize env entry
  let ready := if transport.queryLimit ≤ transport.cachedEvents.length ∨
      maxTransBuf ≤ transport.cachedEventTotalSize + size then
    transport.transportCachedEvents else transport
  { ready with
    cachedEvents := ready.cachedEvents ++ [env.str8ToStr16 entry.json]
    cachedSeqs := ready.cachedSeqs ++ [entry.id]
    cachedEventTotalSize := ready.cachedEventTotalSize + size
    maxEvents := ready.maxEvents - 1 }

def transportSysEvent : List Entry → EventTransport → Details → EventTransport × Details
  | [], transport, details => (transport, details)
  | entry :: rest, transport, details =>
    if transport.maxEvents ≤ 0 then (transport, details)
    else if !admissible env transport.uid entry then transportSysEvent rest transport details
    else if eventJsonSize env entry > maxTransBuf then
      transportSysEvent rest transport { details with ignored := details.ignored + 1 }
    else transportSysEvent rest (cacheEvent env transport entry)
      { details with transported := details.transported + 1 }

/-- What a round of `Query` does with its result list. -/
def round (transport : EventTransport) (asked : QueryRound) : EventTransport :=
  let result := transportSysEvent env asked.result { transport with queryLimit := asked.queryLimit } ⟨0, 0⟩
  { result.1 with totalEventCnt := result.1.totalEventCnt + result.2.transported }

/-- All rounds of a query, with what `FinishEventQuery` sends. -/
def query (rounds : List QueryRound) (transport : EventTransport) : EventTransport :=
  (rounds.foldl (round env) transport).transportCachedEvents

end EventTransport

/-- The bytes that the texts of a batch take with their ends. -/
def transBytes : List (List UInt16) → Int
  | [] => 0
  | text :: rest => ((text.length + 1) * u16CharSize : Nat) + transBytes rest

/-- The event decodes, takes at most `MAX_TRANS_BUF` bytes and may be shown to the caller. -/
def transportable (env : ServiceEnv) (uid : Int) (entry : Entry) : Bool :=
  EventQueryWrapper.admissible env uid entry && decide (transBytes [env.str8ToStr16 entry.json] ≤ maxTransBuf)

namespace EventQueryWrapper
variable (env : ServiceEnv)

/-- A batch of events as `OnQuery` is given it. -/
def batchView (batch : List Entry) : List (List UInt16) × List Int :=
  (batch.map fun entry => env.str8ToStr16 entry.json, batch.map Entry.id)

def view (wrapper : EventQueryWrapper) : EventTransport where
  uid := wrapper.uid
  queryLimit := wrapper.queryLimit
  maxEvents := wrapper.argument.maxEvents
  totalEventCnt := wrapper.totalEventCnt
  cachedEvents := (batchView env wrapper.cachedEvents).1
  cachedSeqs := (batchView env wrapper.cachedEvents).2
  cachedEventTotalSize := wrapper.cachedEventTotalSize
  onQuery := wrapper.sent.map (batchView env)

variable (wrapper : EventQueryWrapper)

theorem view_transportCachedEvents :
    view env wrapper.transportCachedEvents = (view env wrapper).transportCachedEvents := by
  rw [transportCachedEvents, EventTransport.transportCachedEvents]
  cases cached : wrapper.cachedEvents <;> simp [view, batchView, cached]

theorem view_cacheEvent (entry : Entry) :
    view env (cacheEvent env wrapper entry) = EventTransport.cacheEvent env (view env wrapper) entry := by
  have length : (view env wrapper).cachedEvents.length = wrapper.cachedEvents.length := length_map _
  have flushed := view_transportCachedEvents env wrapper
  rw [cacheEvent, EventTransport.cacheEvent, length]
  simp [show (view env wrapper).queryLimit = wrapper.queryLimit from rfl,
    show (view env wrapper).cachedEventTotalSize = wrapper.cachedEventTotalSize from rfl]
  split
  · rw [← flushed]
    simp [view, batchView]
  · simp [view, batchView]

variable (entries : List Entry)

theorem view_transportSysEvent (wrapper : EventQueryWrapper) (details : Details) :
    EventTransport.transportSysEvent env entries (view env wrapper) details =
      (view env (transportSysEvent env entries wrapper details).1,
        (transportSysEvent env entries wrapper details).2) := by
  induction entries generalizing wrapper details with
  | nil => rfl
  | cons entry rest ih =>
    rw [EventTransport.transportSysEvent, transportSysEvent]
    simp [show (view env wrapper).maxEvents = wrapper.argument.maxEvents from rfl,
      show (view env wrapper).uid = wrapper.uid from rfl, ← view_cacheEvent, ih]
    split
    · rfl
    · split
      · rfl
      · split <;> rfl

theorem transBytes_append (first second : List (List UInt16)) :
    transBytes (first ++ second) = transBytes first + transBytes second := by
  induction first with
  | nil => exact (Int.zero_add _).symm
  | cons text rest ih => rw [cons_append, transBytes, transBytes, ih, Int.add_assoc]

/-- The events of a batch are not too many and their texts fit into the buffer. -/
def Fits (batch : List Entry) : Prop :=
  (batch.length : Int) ≤ maxQueryEvents ∧ transBytes (batchView env batch).1 ≤ maxTransBuf

theorem fits_nil : Fits env [] :=
  ⟨(by decide : (0 : Int) ≤ maxQueryEvents), (by decide : (0 : Int) ≤ maxTransBuf)⟩

/-- Every batch fits, and the size beside the cached events is theirs. -/
structure Batched (wrapper : EventQueryWrapper) : Prop where
  sent : ∀ batch ∈ wrapper.sent, batch ≠ [] ∧ Fits env batch
  cached : Fits env wrapper.cachedEvents
  size : wrapper.cachedEventTotalSize = transBytes (batchView env wrapper.cachedEvents).1

section Bounds
variable {env} {wrapper : EventQueryWrapper} (batched : Batched env wrapper)
include batched

theorem Batched.transportCachedEvents :
    Batched env wrapper.transportCachedEvents ∧ wrapper.transportCachedEvents.cachedEvents = [] := by
  rw [EventQueryWrapper.transportCachedEvents]
  split
  · case isTrue empty => exact ⟨batched, empty⟩
  · case isFalse full =>
    exact ⟨⟨forall_mem_append.mpr ⟨batched.sent, forall_mem_singleton.mpr ⟨full, batched.cached⟩⟩,
      fits_nil env, rfl⟩, rfl⟩

theorem Batched.cacheEvent {entry : Entry} (limit : wrapper.queryLimit ≤ maxQueryEvents)
    (exact : eventJsonSize env entry = transBytes [env.str8ToStr16 entry.json])
    (small : eventJsonSize env entry ≤ maxTransBuf) : Batched env (cacheEvent env wrapper entry) := by
  have view : ∀ batch, (batchView env (batch ++ [entry])).1 =
      (batchView env batch).1 ++ [env.str8ToStr16 entry.json] := fun batch => map_append
  rw [EventQueryWrapper.cacheEvent]
  split
  · obtain ⟨⟨sent, -, size⟩, empty⟩ := batched.transportCachedEvents
    refine ⟨sent, ⟨?_, ?_⟩, ?_⟩
    · rw [empty]
      exact (by decide : ((1 : Nat) : Int) ≤ maxQueryEvents)
    · rw [empty, view, transBytes_append, ← exact]
      exact (Int.zero_add _).trans_le small
    · rw [view, transBytes_append, ← exact, size, empty]
  · case isFalse room =>
    refine ⟨batched.sent, ⟨?_, ?_⟩, ?_⟩
    · rw [length_append, length_singleton]
      omega
    · rw [view, transBytes_append, ← exact, ← batched.size]
      omega
    · rw [view, transBytes_append, ← exact, batched.size]

theorem Batched.transportSysEvent {entries : List Entry}
    (exact : ∀ entry ∈ entries, eventJsonSize env entry = transBytes [env.str8ToStr16 entry.json])
    (limit : wrapper.queryLimit ≤ maxQueryEvents) (details : Details) :
    Batched env (transportSysEvent env entries wrapper details).1 := by
  fun_induction EventQueryWrapper.transportSysEvent env entries wrapper details with
  | case1 | case2 => exact batched
  | case3 _ _ _ _ _ _ ih | case4 _ _ _ _ _ _ _ ih => exact ih batched (forall_mem_cons.mp exact).2 limit
  | case5 entry rest wrapper details _ _ small ih =>
    obtain ⟨exact, others⟩ := forall_mem_cons.mp exact
    obtain ⟨sent, cached, size, stored, -⟩ := cacheEvent_spec env wrapper entry
    refine ih (batched.cacheEvent limit exact (Int.not_lt.mp small)) others ?_
    rw [stored]
    exact limit

end Bounds

theorem transportSysEvent_counted (wrapper : EventQueryWrapper) (details : Details) :
    (transportSysEvent env entries wrapper details).2.transported +
        (transportSysEvent env entries wrapper details).1.argument.maxEvents =
      details.transported + wrapper.argument.maxEvents := by
  fun_induction transportSysEvent env entries wrapper details with
  | case1 | case2 => rfl
  | case3 _ _ _ _ _ _ ih | case4 _ _ _ _ _ _ _ ih => exact ih
  | case5 entry rest wrapper details _ _ _ ih =>
    obtain ⟨sent, cached, size, stored, -⟩ := cacheEvent_spec env wrapper entry
    rw [ih, stored]
    simp only [advanced]
    omega

def queryRound (wrapper : EventQueryWrapper) (asked : QueryRound) : EventQueryWrapper :=
  transport env asked.result { wrapper with queryLimit := asked.queryLimit }

theorem view_queryRound (asked : QueryRound) :
    view env (queryRound env wrapper asked) = (view env wrapper).round env asked := by
  have viewed := view_transportSysEvent env asked.result { wrapper with queryLimit := asked.queryLimit } ⟨0, 0⟩
  have start : view env { wrapper with queryLimit := asked.queryLimit } =
    { view env wrapper with queryLimit := asked.queryLimit } := rfl
  rw [start] at viewed
  rw [EventTransport.round, viewed]
  rfl

theorem queryRound_spec (asked : QueryRound) :
    (queryRound env wrapper asked).uid = wrapper.uid ∧
      (queryRound env wrapper asked).argument.maxEvents =
        wrapper.argument.maxEvents - (sendable env wrapper asked.result).length ∧
      (queryRound env wrapper asked).stream = wrapper.stream ++ sendable env wrapper asked.result ∧
      (queryRound env wrapper asked).totalEventCnt =
        wrapper.totalEventCnt + (sendable env wrapper asked.result).length := by
  obtain ⟨moved, -⟩ := transport_spec env asked.result { wrapper with queryLimit := asked.queryLimit }
  have left := congrArg QueryArgument.maxEvents moved.argument
  have counted := transportSysEvent_counted env asked.result { wrapper with queryLimit := asked.queryLimit } ⟨0, 0⟩
  obtain ⟨sent, cached, size, last, result, -⟩ :=
    @transportSysEvent_spec env asked.result { wrapper with queryLimit := asked.queryLimit } ⟨0, 0⟩
  refine ⟨moved.uid, left, moved.stream, ?_⟩
  rw [queryRound, transport, result]
  rw [result] at counted
  simp only [advanced] at counted ⊢
  have same : sendable env { wrapper with queryLimit := asked.queryLimit } asked.result =
    sendable env wrapper asked.result := rfl
  rw [same] at counted
  omega

section Rounds
variable {env} {wrapper : EventQueryWrapper}

theorem Batched.queryRound (batched : Batched env wrapper) {asked : QueryRound}
    (exact : ∀ entry ∈ asked.result, eventJsonSize env entry = transBytes [env.str8ToStr16 entry.json]) :
    Batched env (queryRound env wrapper asked) := by
  have start : Batched env { wrapper with queryLimit := asked.queryLimit } :=
    ⟨batched.sent, batched.cached, batched.size⟩
  obtain ⟨sent, cached, size⟩ := start.transportSysEvent exact asked.limited.2 ⟨0, 0⟩
  exact ⟨sent, cached, size⟩

/-- The events that may still be sent are taken from the result lists one after the other. -/
theorem foldl_round_spec {rounds : List QueryRound} (batched : Batched env wrapper)
    (exact : ∀ asked ∈ rounds, ∀ entry ∈ asked.result,
      eventJsonSize env entry = transBytes [env.str8ToStr16 entry.json]) :
    ∃ final, rounds.foldl (EventTransport.round env) (view env wrapper) = view env final ∧
      Batched env final ∧
      final.stream = wrapper.stream ++ sendable env wrapper (rounds.flatMap QueryRound.result) ∧
      final.totalEventCnt =
        wrapper.totalEventCnt + (sendable env wrapper (rounds.flatMap QueryRound.result)).length := by
  induction rounds generalizing wrapper with
  | nil =>
    have nothing : sendable env wrapper [] = [] := take_nil
    refine ⟨wrapper, rfl, batched, ?_, ?_⟩
    · exact (append_nil _).symm.trans (congrArg (wrapper.stream ++ ·) nothing.symm)
    · exact congrArg (wrapper.totalEventCnt + ·.length) nothing.symm
  | cons asked rest ih =>
    obtain ⟨first, others⟩ := forall_mem_cons.mp exact
    obtain ⟨uid, left, stream, counted⟩ := queryRound_spec env wrapper asked
    obtain ⟨final, ran, fits, all, total⟩ := ih (batched.queryRound first) others
    have split : sendable env wrapper ((asked :: rest).flatMap QueryRound.result) =
        sendable env wrapper asked.result ++
          sendable env (queryRound env wrapper asked) (rest.flatMap QueryRound.result) := by
      have less : (queryRound env wrapper asked).argument.maxEvents.toNat =
          wrapper.argument.maxEvents.toNat - (asked.result.filter (deliverable env wrapper.uid)).length := by
        rw [left, sendable, length_take]
        omega
      rw [sendable, sendable, sendable, flatMap_cons, filter_append, take_append, uid, less]
    refine ⟨final, ?_, fits, ?_, ?_⟩
    · rw [foldl_cons, ← view_queryRound, ran]
    · rw [all, stream, split, append_assoc]
    · rw [total, counted, split, length_append, Nat.add_assoc]

end Rounds

section Loop
variable {env} {store : List DomainDir}

/-- The limit under which a query is executed. -/
def Limited (wrapper : EventQueryWrapper) : Prop :=
  0 ≤ wrapper.queryLimit ∧ wrapper.queryLimit ≤ maxQueryEvents

theorem view_needStartNextQuery (wrapper : EventQueryWrapper) :
    view env wrapper.needStartNextQuery.2 = view env wrapper := by
  rw [needStartNextQuery]
  split
  · rfl
  · simp only
    split <;> rfl

variable {wrapper : EventQueryWrapper}

theorem view_buildQuery (positive : 0 < wrapper.argument.maxEvents) (limited : Limited wrapper)
    (rule : SysEventQueryRule) :
    view env (wrapper.buildQuery rule).2 =
        { view env wrapper with queryLimit := (wrapper.buildQuery rule).2.queryLimit } ∧
      Limited (wrapper.buildQuery rule).2 := by
  have unclamped : (clamped wrapper.argument).maxEvents = wrapper.argument.maxEvents := if_neg (by omega)
  rw [buildQuery]
  split
  · exact ⟨rfl, limited⟩
  · refine ⟨?_, ?_⟩
    · simp [buildTimeQuery, view, unclamped]
    · simp [buildTimeQuery, Limited, unclamped, maxQueryEvents]
      omega
  · refine ⟨rfl, ?_⟩
    simp [buildSeqQuery, Limited, maxQueryEvents]
    omega

theorem view_transport {before : EventTransport}
    (built : view env wrapper = { before with queryLimit := wrapper.queryLimit }) (limited : Limited wrapper)
    (entries : List Entry) :
    view env (transport env entries wrapper) = before.round env ⟨wrapper.queryLimit, entries, limited⟩ := by
  refine (view_queryRound env wrapper ⟨wrapper.queryLimit, entries, limited⟩).trans ?_
  rw [built]
  rfl

theorem limited_transport (limited : Limited wrapper) (entries : List Entry) :
    Limited (transport env entries wrapper) := by
  rw [Limited, (transport_spec env entries wrapper).1.queryLimit]
  exact limited

variable {final : EventQueryWrapper} {status : DbQueryStatus}

/-- The loop of `Query` hands its result lists to `TransportSysEvent` one after the other. -/
theorem queryLoop_rounds {rounds : Nat} (limited : Limited wrapper)
    (returned : queryLoop env store rounds wrapper = some (status, final)) :
    ∃ asked, view env final = EventTransport.query env asked (view env wrapper) := by
  induction rounds generalizing wrapper with
  | zero => cases returned
  | succ rounds ih =>
    rw [queryLoop] at returned
    split at returned
    · cases returned
      exact ⟨[], view_transportCachedEvents env wrapper⟩
    · case isFalse incomplete =>
      have positive : 0 < wrapper.argument.maxEvents := by simpa [isQueryComplete] using incomplete
      have next := @view_needStartNextQuery env wrapper
      have kept : wrapper.needStartNextQuery.2.argument.maxEvents = wrapper.argument.maxEvents :=
        congrArg EventTransport.maxEvents next
      have limited' : Limited wrapper.needStartNextQuery.2 := by
        have same : wrapper.needStartNextQuery.2.queryLimit = wrapper.queryLimit :=
          congrArg EventTransport.queryLimit next
        rwa [Limited, same]
      simp only at returned
      split at returned
      · case h_1 rule rest more rules =>
        obtain ⟨built, small⟩ := @view_buildQuery env _ (kept.symm ▸ positive) limited' rule
        rw [next] at built
        generalize wrapper.needStartNextQuery.2.buildQuery rule = query at returned built small
        split at returned
        · cases returned
          refine ⟨[⟨query.2.queryLimit, [], small⟩], ?_⟩
          refine (view_transportCachedEvents env _).trans (congrArg EventTransport.transportCachedEvents ?_)
          exact built
        · generalize query.1.executeLimited env.database store query.2.executed query.2.queryLimit = result
            at returned
          obtain ⟨asked, whole⟩ := ih (@limited_transport env
            { query.2 with query := some result.2.2, executed := query.2.executed + 1 } small result.2.1) returned
          have executed := @view_transport env
            { query.2 with query := some result.2.2, executed := query.2.executed + 1 } _ built small result.2.1
          refine ⟨⟨query.2.queryLimit, result.2.1, small⟩ :: asked, ?_⟩
          rw [whole, executed]
          rfl
      · cases returned
        exact ⟨[], (view_transportCachedEvents env _).trans
          (congrArg EventTransport.transportCachedEvents next)⟩

theorem runQuery_rounds {uid maxSeq : Int} {argument : QueryArgument} {rules : List SysEventQueryRule}
    (returned : runQuery env store (new uid argument maxSeq rules) = some (status, final)) :
    ∃ asked, view env final = EventTransport.query env asked (EventTransport.new uid argument.maxEvents) := by
  obtain ⟨asked, whole⟩ := queryLoop_rounds ⟨Int.le_refl 0, (by decide : (0 : Int) ≤ maxQueryEvents)⟩ returned
  have start : view env (new uid argument maxSeq rules) = EventTransport.new uid argument.maxEvents := by
    simp [new]
    cases createQueryWrapperByArgument argument <;> rfl
  exact ⟨asked, start ▸ whole⟩

theorem runQuery_rounds_thinned : ∃ final,
    runQuery plainEnv (thinnedStore 2) (new 0 (anyTime 5) 9 [aafwkRule]) = some (.succeed, final) ∧
      ∃ asked, view plainEnv final = EventTransport.query plainEnv asked (EventTransport.new 0 5) := by
  obtain ⟨final, ran, -⟩ := @runQuery_served plainEnv (thinnedStore 2) (fun _ => rfl) 0 (anyTime 5) 9 [aafwkRule]
  exact ⟨final, ran, runQuery_rounds ran⟩

end Loop

theorem eventJsonSize_exact {entry : Entry}
    (small : ((env.str8ToStr16 entry.json).length + 1) * u16CharSize < 2147483648) :
    eventJsonSize env entry = transBytes [env.str8ToStr16 entry.json] := by
  rw [eventJsonSize, castInt_of_lt small, transBytes, transBytes, Int.add_zero]

theorem zip_batchView (batch : List Entry) :
    (batchView env batch).1.zip (batchView env batch).2 =
      batch.map fun entry => (env.str8ToStr16 entry.json, entry.id) :=
  zip_map'

variable (batches : List (List Entry))

theorem flatMap_zip_batchView :
    ((batches.map (batchView env)).flatMap fun batch => batch.1.zip batch.2) =
      batches.flatten.map fun entry => (env.str8ToStr16 entry.json, entry.id) := by
  rw [flatMap_map, map_flatten, flatMap_def]
  exact congrArg List.flatten (map_congr_left fun batch _ => zip_batchView env batch)

theorem flatMap_fst_batchView :
    ((batches.map (batchView env)).flatMap Prod.fst).length = batches.flatten.length := by
  rw [flatMap_map, flatMap_def, ← length_map (f := fun entry : Entry => env.str8ToStr16 entry.json),
    map_flatten]
  rfl

end EventQueryWrapper

namespace EventTransport
open EventQueryWrapper
variable (env : ServiceEnv)

theorem filter_transportable {rounds : List QueryRound} {uid : Int}
    (exact : ∀ asked ∈ rounds, ∀ entry ∈ asked.result,
      eventJsonSize env entry = transBytes [env.str8ToStr16 entry.json]) :
    (rounds.flatMap QueryRound.result).filter (deliverable env uid) =
      (rounds.flatMap QueryRound.result).filter (transportable env uid) := by
  refine filter_congr fun entry member => ?_
  obtain ⟨asked, one, inside⟩ := mem_flatMap.mp member
  rw [deliverable, transportable, oversized, exact asked one entry inside, ← decide_not]
  simp

/-- The text is no longer than what an accepted block prints for its parameters, with a mebibyte for
the members of the header and those that `SysEvent::AsJsonStr` appends. -/
def Received (printDouble : UInt64 → List UInt8) (entry : Entry) : Prop :=
  ∃ block event, DecodedEvent.new block = some event ∧ event.isValid = true ∧
    entry.json.length ≤
      ((event.allParams.map DecodedParam.pair).flatMap (JsonText.appendValue printDouble)).length + 2 ^ 20

theorem eventJsonSize_received {env : ServiceEnv} {printDouble : UInt64 → List UInt8} {entry : Entry}
    (shorter : ∀ text, (env.str8ToStr16 text).length ≤ text.length)
    (printed : ∀ val, (printDouble val).length ≤ 400) (received : Received printDouble entry) :
    eventJsonSize env entry = transBytes [env.str8ToStr16 entry.json] := by
  obtain ⟨block, event, opened, valid, text⟩ := received
  have params := (DecodedEvent.layout_of_valid opened valid).paramsText_length printed
  have wide := shorter entry.json
  refine eventJsonSize_exact env ?_
  rw [maxBlockSize] at params
  rw [u16CharSize]
  omega

/-- The batches of a query hold the events that may be sent, each text beside its sequence. -/
theorem query_batches (uid maxEvents : Int) (rounds : List QueryRound) (printDouble : UInt64 → List UInt8)
    (shorter : ∀ text, (env.str8ToStr16 text).length ≤ text.length)
    (printed : ∀ val, (printDouble val).length ≤ 400)
    (received : ∀ asked ∈ rounds, ∀ entry ∈ asked.result, Received printDouble entry) :
    ((query env rounds (new uid maxEvents)).onQuery.flatMap fun batch => batch.1.zip batch.2) =
        (((rounds.flatMap QueryRound.result).filter (transportable env uid)).take maxEvents.toNat).map
          (fun entry => (env.str8ToStr16 entry.json, entry.id)) ∧
      (∀ batch ∈ (query env rounds (new uid maxEvents)).onQuery,
        batch.1 ≠ [] ∧ batch.2.length = batch.1.length ∧ (batch.1.length : Int) ≤ maxQueryEvents ∧
          transBytes batch.1 ≤ maxTransBuf) ∧
      (query env rounds (new uid maxEvents)).totalEventCnt =
        ((query env rounds (new uid maxEvents)).onQuery.flatMap Prod.fst).length := by
  have exact : ∀ asked ∈ rounds, ∀ entry ∈ asked.result,
      eventJsonSize env entry = transBytes [env.str8ToStr16 entry.json] :=
    fun asked member entry inside => eventJsonSize_received shorter printed (received asked member entry inside)
  let start : EventQueryWrapper :=
    ⟨.timeStamp, uid, ⟨0, 0, maxEvents, 0, 0⟩, 0, 0, 0, 0, none, [], true, [], 0, 0, []⟩
  have fresh : Batched env start := ⟨fun _ member => absurd member not_mem_nil, fits_nil env, rfl⟩
  obtain ⟨final, ran, batched, stream, counted⟩ := foldl_round_spec fresh exact
  have sendables : sendable env start (rounds.flatMap QueryRound.result) =
      ((rounds.flatMap QueryRound.result).filter (transportable env uid)).take maxEvents.toNat :=
    congrArg (List.take maxEvents.toNat) (filter_transportable env exact)
  have sent := (transportCachedEvents_spec final)
  obtain ⟨batches, size, flushed, all⟩ := sent
  have viewed : query env rounds (new uid maxEvents) = view env final.transportCachedEvents := by
    rw [view_transportCachedEvents, ← ran]
    rfl
  have fits := batched.transportCachedEvents.1.sent
  rw [stream, sendables] at all
  rw [sendables] at counted
  rw [flushed] at viewed fits
  rw [viewed]
  refine ⟨?_, ?_, ?_⟩
  · exact (flatMap_zip_batchView env batches).trans (congrArg _ all)
  · intro batch member
    obtain ⟨entries, inside, rfl⟩ := mem_map.mp member
    obtain ⟨some, few, bytes⟩ := fits entries inside
    refine ⟨fun none => some (map_eq_nil_iff.mp none), ?_, ?_, bytes⟩
    · exact (length_map _).trans (length_map _).symm
    · exact (congrArg Nat.cast (length_map _)).trans_le few
  · refine Eq.trans ?_ (flatMap_fst_batchView env batches).symm
    rw [all]
    exact counted.trans (Nat.zero_add _)

/-- Two events, of which only one may be in a batch. -/
def singleRound : QueryRound :=
  ⟨1, [aafwkEvent "JS_ERROR" 1, aafwkEvent "JS_ERROR" 2], by decide⟩

theorem query_batches_single :
    (query plainEnv [singleRound] (new 0 5)).onQuery = [([[120]], [1]), ([[120]], [2])] ∧
      (∀ batch ∈ (query plainEnv [singleRound] (new 0 5)).onQuery,
        batch.1 ≠ [] ∧ batch.2.length = batch.1.length ∧ (batch.1.length : Int) ≤ maxQueryEvents ∧
          transBytes batch.1 ≤ maxTransBuf) := by
  have opened : (DecodedEvent.new (DecodedEvent.bareBlock [])).map DecodedEvent.isValid = some true := by
    decide +kernel
  obtain ⟨event, opened, valid⟩ := Option.map_eq_some_iff.mp opened
  have received : ∀ entry ∈ singleRound.result, Received (fun _ => [48]) entry := by
    intro entry member
    have short : ∀ entry ∈ singleRound.result, entry.json.length ≤ 2 ^ 20 := by decide +kernel
    exact ⟨_, event, opened, valid, (short entry member).trans (Nat.le_add_left _ _)⟩
  exact ⟨by decide +kernel, (query_batches plainEnv 0 5 [singleRound] (fun _ => [48])
    (fun text => (length_map _).le) (fun _ => (by decide : 1 ≤ 400))
    (forall_mem_singleton.mpr received)).2.1⟩

end EventTransport
end Hiview.EventService
