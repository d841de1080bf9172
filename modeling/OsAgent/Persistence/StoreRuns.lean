import OsAgent.Library.Script
import OsAgent.Library.Transition
import OsAgent.Persistence.SqliteTaskStore

/-!
# Runs of a task and its store

Whatever becomes of a task between two calls of `persist`, the events that are stored are the first ones
of the task, numbered from one, as long as the task goes on from what was stored. So the rows that a call
finds missing are exactly those that it has to append (`persisted_agree`).
-/

namespace OsAgent.Persistence

open OsAgent.Library

/-! ## What a call does -/

section

variable {Q : Unit → Connection → Prop} {E : String → Connection → Prop} {c : Connection}
  {error : Option String}

/-- An attempt goes on or fails with its error. -/
theorem wp_attempt (hok : Q () c) (herror : ∀ e, error = some e → E e c) : wp (attempt error) Q E c := by
  unfold attempt
  cases error with
  | none => exact hok
  | some e => exact herror e rfl

/-- A statement changes the tables of the transaction, or fails. -/
theorem wp_statement {change : Tables → Tables} (hok : Q () { c with transaction := c.transaction.map change })
    (herror : ∀ e, error = some e → E e c) : wp (statement error change) Q E c := by
  unfold statement
  rw [wp_bind]
  exact wp_attempt hok herror

end

/-- The tables after a call that does not fail. -/
def persisted (tables : Tables) (task : TaskRecord) : Tables :=
  (newEvents tables task).foldl (fun tables event => tables.insertEvent (eventRow task.id event))
    (tables.upsertSnapshot (snapshotRow task))

/-- The insertions of a transaction, one after the other. -/
theorem insertions_spec (errors : ℕ → Option String) (task : TaskRecord) (tables seen : Tables)
    (events : List (JsonValue × ℕ)) :
    wp (events.forM fun (event, index) =>
        statement (errors (index + 4)) fun tables => tables.insertEvent (eventRow task.id event))
      (fun _ c => c = ⟨tables, some (events.foldl
        (fun tables p => tables.insertEvent (eventRow task.id p.1)) seen)⟩)
      (fun e c => c.tables = tables ∧ ∃ n, errors n = some e) ⟨tables, some seen⟩ := by
  induction events generalizing seen with
  | nil => exact rfl
  | cons p events ih =>
    show wp (statement (errors (p.2 + 4)) _ >>= fun _ => events.forM _) _ _ _
    rw [wp_bind]
    apply wp_statement
    · exact ih (seen.insertEvent (eventRow task.id p.1))
    · exact fun e he => ⟨rfl, _, he⟩

/-- A call fails only if one of its statements does, and leaves the tables as they were. -/
theorem persist_spec (errors : ℕ → Option String) (task : TaskRecord) (tables : Tables) :
    wp (persist errors task) (fun _ c => c = ⟨persisted tables task, none⟩)
      (fun e c => c = ⟨tables, none⟩ ∧ ∃ n, errors n = some e) ⟨tables, none⟩ := by
  unfold persist
  rw [wp_bind]
  -- The transaction is begun, the rows are written, and it is committed: each may fail.
  apply wp_attempt
  · rw [wp_bind, wp_get]
    unfold beginTransaction
    rw [wp_bind, wp_bind]
    apply wp_attempt
    · rw [wp_modify, wp_tryCatch]
      rw [wp_bind]
      apply wp_statement
      · rw [wp_bind]
        have hinsertions := insertions_spec errors task tables (tables.upsertSnapshot (snapshotRow task))
          (newEvents tables task).zipIdx
        apply wp_mono hinsertions
        · rintro _ c rfl
          unfold commit
          rw [wp_bind]
          apply wp_attempt
          · rw [wp_modify]
            unfold persisted
            conv_rhs => rw [← List.zipIdx_map_fst 0 (newEvents tables task), List.foldl_map]
            rfl
          · exact fun e he => ⟨rfl, _, he⟩
        · -- A statement in between failed, and the rollback puts the tables of before back.
          rintro e c ⟨hc, hfailed⟩
          refine ⟨?_, hfailed⟩
          show (⟨c.tables, none⟩ : Connection) = _
          rw [hc]
      · exact fun e he => ⟨rfl, _, he⟩
    · exact fun e he => ⟨rfl, _, he⟩
  · exact fun e he => ⟨rfl, _, he⟩

/-- A call of which no statement fails. -/
theorem persist_ok (task : TaskRecord) (tables : Tables) :
    persist (fun _ => none) task ⟨tables, none⟩ = .ok () ⟨persisted tables task, none⟩ := by
  apply eq_of_wp
  apply wp_mono (persist_spec (fun _ => none) task tables)
  · rintro _ c rfl
    rfl
  · rintro e c ⟨-, n, hn⟩
    cases hn

/-! ## Numbered events -/

/-- The properties of a task, besides its events. -/
structure ValidProperties (numbers : List Char → Option String) (ps : List (String × JsonValue)) : Prop where
  readable : (JsonValue.object ps).Readable numbers
  own : "events" ∉ keysOf ps

/-- The events of a task are numbered from one, and the snapshot is data that can be written and read. -/
structure TaskRecord.Valid (numbers : List Char → Option String) (task : TaskRecord) : Prop where
  numbered : task.events.map (·.get? "sequence") =
    (List.range' 1 task.events.length).map fun n => some (.ofNat n)
  events : ∀ event ∈ task.events, event.Readable numbers
  properties : ValidProperties numbers task.properties

/-- The number of an event is its property. -/
theorem sequenceOf_eq {event : JsonValue} {n : ℕ} (h : event.get? "sequence" = some (.ofNat n)) :
    sequenceOf event = n := by
  unfold sequenceOf
  rw [h]
  exact numeralValue_toString n

/-- The numbers of the events are those of their properties. -/
theorem map_sequenceOf {events : List JsonValue} {start : ℕ}
    (h : events.map (·.get? "sequence") = (List.range' start events.length).map fun n => some (.ofNat n)) :
    events.map sequenceOf = List.range' start events.length := by
  induction events generalizing start with
  | nil => rfl
  | cons event events ih =>
    rw [List.length_cons, List.range'_succ, List.map_cons, List.map_cons, List.cons.injEq] at h
    rw [List.length_cons, List.range'_succ, List.map_cons, sequenceOf_eq h.1, ih h.2]

/-- Of a numbered list, the items after the `k`-th are those with a greater number. -/
theorem filter_eq_drop {α : Type} {f : α → ℕ} {l : List α} {start : ℕ} (k : ℕ)
    (h : l.map f = List.range' start l.length) : l.filter (fun a => start + k ≤ f a) = l.drop k := by
  induction l generalizing start k with
  | nil => rw [List.drop_nil, List.filter_nil]
  | cons a l ih =>
    rw [List.length_cons, List.range'_succ, List.map_cons, List.cons.injEq] at h
    obtain ⟨ha, h⟩ := h
    cases k with
    | zero =>
      have hall : ∀ b ∈ l, start ≤ f b := by
        intro b hb
        have hmem : f b ∈ List.range' (start + 1) l.length := by
          rw [← h]
          exact List.mem_map_of_mem hb
        have hrange := List.mem_range'_1.mp hmem
        omega
      rw [List.drop_zero, List.filter_eq_self]
      intro b hb
      rcases List.mem_cons.mp hb with rfl | hb
      · simp [ha]
      · simpa using hall b hb
    | succ k =>
      have hnot : ¬ start + (k + 1) ≤ f a := by omega
      have hsame : (fun b => decide (start + (k + 1) ≤ f b)) = fun b => decide (start + 1 + k ≤ f b) := by
        funext b
        rw [Nat.add_right_comm, Nat.add_assoc]
      rw [List.filter_cons, if_neg (by simpa using hnot), List.drop_succ_cons, hsame, ih k h]

/-- The largest of the first numbers is the last. -/
theorem foldl_max_range' (n : ℕ) : (List.range' 1 n).foldl max 0 = n := by
  induction n with
  | zero => rfl
  | succ n ih =>
    rw [List.range'_1_concat, List.foldl_append, ih]
    show max n (1 + n) = n + 1
    omega

/-! ## The rows of a task -/

/-- A row with a new number goes to the end of those of its task. -/
theorem rowsOf_insertEvent (tables : Tables) (row : EventRow)
    (h : ∀ old ∈ tables.rowsOf row.taskId, old.sequence ≠ row.sequence) :
    (tables.insertEvent row).rowsOf row.taskId = tables.rowsOf row.taskId ++ [row] := by
  have hfresh : ¬ (tables.events.any fun old =>
      old.taskId = row.taskId && old.sequence = row.sequence) = true := by
    intro hany
    obtain ⟨old, hmem, heq⟩ := List.any_eq_true.mp hany
    rw [Bool.and_eq_true, decide_eq_true_eq, decide_eq_true_eq] at heq
    exact h old (List.mem_filter.mpr ⟨hmem, decide_eq_true heq.1⟩) heq.2
  unfold Tables.insertEvent
  rw [if_neg hfresh]
  unfold Tables.rowsOf
  rw [List.filter_append]
  simp

/-- A row of one task leaves those of the others alone. -/
theorem rowsOf_insertEvent_of_ne (tables : Tables) {row : EventRow} {taskId : String}
    (h : row.taskId ≠ taskId) : (tables.insertEvent row).rowsOf taskId = tables.rowsOf taskId := by
  unfold Tables.insertEvent
  split_ifs
  · rfl
  · unfold Tables.rowsOf
    rw [List.filter_append]
    simp [h]

/-- To insert an event leaves the snapshots alone. -/
theorem snapshots_insertEvent (tables : Tables) (row : EventRow) :
    (tables.insertEvent row).snapshots = tables.snapshots := by
  unfold Tables.insertEvent
  split_ifs <;> rfl

/-- Insertions of events of a task leave the snapshots, and the rows of other tasks. -/
theorem foldl_insertEvent_rest (taskId : String) (events : List JsonValue) (tables : Tables) :
    (events.foldl (fun tables event => tables.insertEvent (eventRow taskId event)) tables).snapshots =
        tables.snapshots ∧
      ∀ other, taskId ≠ other →
        (events.foldl (fun tables event => tables.insertEvent (eventRow taskId event)) tables).rowsOf other =
          tables.rowsOf other := by
  induction events generalizing tables with
  | nil => exact ⟨rfl, fun _ _ => rfl⟩
  | cons event events ih =>
    obtain ⟨hsnapshots, hrows⟩ := ih (tables.insertEvent (eventRow taskId event))
    constructor
    · rw [List.foldl_cons, hsnapshots, snapshots_insertEvent]
    · intro other hother
      rw [List.foldl_cons, hrows other hother]
      exact rowsOf_insertEvent_of_ne tables hother

/-- Events with greater numbers than those that are stored are appended. -/
theorem rowsOf_foldl_insertEvent {taskId : String} {events : List JsonValue} {tables : Tables} {start : ℕ}
    (hold : ∀ row ∈ tables.rowsOf taskId, row.sequence < start)
    (hnew : events.map sequenceOf = List.range' start events.length) :
    (events.foldl (fun tables event => tables.insertEvent (eventRow taskId event)) tables).rowsOf taskId =
      tables.rowsOf taskId ++ events.map (eventRow taskId) := by
  induction events generalizing tables start with
  | nil => simp
  | cons event events ih =>
    rw [List.length_cons, List.range'_succ, List.map_cons, List.cons.injEq] at hnew
    obtain ⟨hfirst, hnew⟩ := hnew
    have hinsert : (tables.insertEvent (eventRow taskId event)).rowsOf taskId =
        tables.rowsOf taskId ++ [eventRow taskId event] := by
      apply rowsOf_insertEvent tables (eventRow taskId event)
      intro old hmem
      have hlt : old.sequence < start := hold old hmem
      show old.sequence ≠ sequenceOf event
      omega
    have hrest : ∀ row ∈ (tables.insertEvent (eventRow taskId event)).rowsOf taskId,
        row.sequence < start + 1 := by
      intro row hrow
      rw [hinsert] at hrow
      rcases List.mem_append.mp hrow with hrow | hrow
      · have hlt := hold row hrow
        omega
      · rw [List.mem_singleton.mp hrow]
        show sequenceOf event < start + 1
        omega
    rw [List.foldl_cons, ih hrest hnew, hinsert, List.append_assoc]
    rfl

/-! ## What is stored -/

/-- What is stored of a task is its snapshot, and its events in their order. -/
structure Agrees (tables : Tables) (task : TaskRecord) : Prop where
  rows : tables.rowsOf task.id = task.events.map (eventRow task.id)
  snapshot : tables.snapshots.get? task.id = some (snapshotRow task)

/-- Nothing is stored of a task. -/
structure Unknown (tables : Tables) (taskId : String) : Prop where
  rows : tables.rowsOf taskId = []
  snapshot : tables.snapshots.get? taskId = none

/-- The numbers of the first events of a task, and of the others. -/
theorem map_sequenceOf_append {old new : List JsonValue}
    (h : (old ++ new).map sequenceOf = List.range' 1 (old ++ new).length) :
    old.map sequenceOf = List.range' 1 old.length ∧
      new.map sequenceOf = List.range' (1 + old.length) new.length := by
  rw [List.map_append, List.length_append, ← List.range'_append_1] at h
  exact List.append_inj h (by rw [List.length_map, List.length_range'])

/-- The events after those that are stored are the new ones. -/
theorem newEvents_eq {tables : Tables} {task : TaskRecord} {old new : List JsonValue}
    (hevents : task.events = old ++ new)
    (hnumbers : task.events.map sequenceOf = List.range' 1 task.events.length)
    (hrows : tables.rowsOf task.id = old.map (eventRow task.id)) : newEvents tables task = new := by
  have hold : old.map sequenceOf = List.range' 1 old.length :=
    (map_sequenceOf_append (by rw [← hevents, hnumbers])).1
  have hsequences : (tables.rowsOf task.id).map EventRow.sequence = List.range' 1 old.length := by
    rw [hrows, List.map_map, ← hold]
    rfl
  have hlatest : tables.latestEventSequence task.id = old.length := by
    unfold Tables.latestEventSequence
    rw [hsequences, foldl_max_range']
  unfold newEvents
  rw [hlatest]
  have hsame : (fun event => decide (old.length < sequenceOf event)) =
      fun event => decide (1 + old.length ≤ sequenceOf event) := by
    funext event
    rw [Nat.add_comm]
    rfl
  rw [hsame, filter_eq_drop old.length hnumbers, hevents, List.drop_left]

/-- A call that does not fail stores the task as it is. -/
theorem agrees_persisted {tables : Tables} {task : TaskRecord} {old : List JsonValue}
    (hnumbers : task.events.map sequenceOf = List.range' 1 task.events.length)
    (hold : old <+: task.events) (hrows : tables.rowsOf task.id = old.map (eventRow task.id)) :
    Agrees (persisted tables task) task := by
  obtain ⟨new, hevents⟩ := hold
  have hparts := map_sequenceOf_append (by rw [hevents, hnumbers] : (old ++ new).map sequenceOf = _)
  have hupserted : (tables.upsertSnapshot (snapshotRow task)).rowsOf task.id =
      old.map (eventRow task.id) := hrows
  have hbefore : ∀ row ∈ (tables.upsertSnapshot (snapshotRow task)).rowsOf task.id,
      row.sequence < 1 + old.length := by
    intro row hrow
    rw [hupserted] at hrow
    obtain ⟨event, hevent, rfl⟩ := List.mem_map.mp hrow
    have hmem : sequenceOf event ∈ List.range' 1 old.length := by
      rw [← hparts.1]
      exact List.mem_map_of_mem hevent
    exact (List.mem_range'_1.mp hmem).2
  have hnew := newEvents_eq hevents.symm hnumbers hrows
  constructor
  · unfold persisted
    rw [hnew, rowsOf_foldl_insertEvent hbefore hparts.2, hupserted, ← List.map_append, hevents]
  · unfold persisted
    rw [(foldl_insertEvent_rest task.id _ _).1]
    exact OrderedMap.get?_insert_self _ _

/-- What is stored of a task is not touched by a call for another one. -/
theorem persisted_of_ne {tables : Tables} {task : TaskRecord} {taskId : String} (h : task.id ≠ taskId) :
    (persisted tables task).rowsOf taskId = tables.rowsOf taskId ∧
      (persisted tables task).snapshots.get? taskId = tables.snapshots.get? taskId := by
  obtain ⟨hsnapshots, hrows⟩ := foldl_insertEvent_rest task.id (newEvents tables task)
    (tables.upsertSnapshot (snapshotRow task))
  unfold persisted
  constructor
  · rw [hrows taskId h]
    rfl
  · rw [hsnapshots]
    exact OrderedMap.get?_insert_of_ne _ (Ne.symm h)

/-! ## Reading what is stored -/

section

variable {numbers : List Char → Option String} {tables : Tables} {task : TaskRecord}

/-- The events of a snapshot are under their property. -/
theorem property?_events (h : "events" ∉ keysOf task.properties) :
    property? "events" (task.properties ++ [("events", .array task.events)]) = some (.array task.events) := by
  rw [property?_append_of_not_mem h, property?_cons, if_pos rfl]

/-- The snapshot of a task is data that can be written and read. -/
theorem TaskRecord.Valid.snapshot_readable (h : task.Valid numbers) : task.snapshot.Readable numbers := by
  obtain ⟨hnodup, hvalues⟩ := readable_object.mp h.properties.readable
  apply readable_object.mpr
  constructor
  · unfold keysOf at hnodup ⊢
    rw [List.map_append]
    apply List.Nodup.append hnodup (List.nodup_singleton _)
    intro key hkey hevents
    rw [List.mem_singleton.mp hevents] at hkey
    exact h.properties.own hkey
  · intro p hp
    rcases List.mem_append.mp hp with hp | hp
    · exact hvalues p hp
    · rw [List.mem_singleton.mp hp]
      exact .array h.events

/-- A task is restored from its snapshot. -/
theorem restore_snapshot (h : "events" ∉ keysOf task.properties) :
    TaskRecord.restore task.snapshot = some task := by
  have hdelete : deleteProperty "events" (task.properties ++ [("events", .array task.events)]) =
      task.properties := by
    unfold deleteProperty
    rw [List.filter_append]
    have hkept : task.properties.filter (fun p => p.1 ≠ "events") = task.properties := by
      rw [List.filter_eq_self]
      intro p hp
      exact decide_eq_true fun heq => h (heq ▸ List.mem_map_of_mem hp)
    rw [hkept]
    simp
  unfold TaskRecord.snapshot TaskRecord.restore
  dsimp only
  rw [property?_events h, hdelete]

/-- A task that agrees with the tables is loaded from them. -/
theorem load_of_agrees (hvalid : task.Valid numbers) (h : Agrees tables task) :
    tables.load numbers task.id = some task.snapshot := by
  unfold Tables.load
  rw [h.snapshot]
  show parse numbers (String.ofList (stringify task.snapshot)).toList = _
  rw [String.toList_ofList, parse_stringify hvalid.snapshot_readable]

/-- The rows of numbered events are in the order of their numbers. -/
theorem mergeSort_rows (hnumbers : task.events.map sequenceOf = List.range' 1 task.events.length) :
    (task.events.map (eventRow task.id)).mergeSort (fun row row' => row.sequence ≤ row'.sequence) =
      task.events.map (eventRow task.id) := by
  apply List.mergeSort_of_pairwise
  rw [List.pairwise_map]
  have hsorted : (task.events.map sequenceOf).Pairwise (· < ·) := by
    rw [hnumbers]
    exact List.pairwise_lt_range'
  rw [List.pairwise_map] at hsorted
  apply hsorted.imp
  intro event event' hlt
  exact decide_eq_true (Nat.le_of_lt hlt)

/-- The events of a task that agrees with the tables are read from them. -/
theorem eventsOf_of_agrees (hvalid : task.Valid numbers) (h : Agrees tables task) :
    tables.eventsOf numbers task.id = some task.events := by
  unfold Tables.eventsOf
  rw [h.rows, mergeSort_rows (map_sequenceOf hvalid.numbered)]
  have hread : ∀ event ∈ task.events,
      parse numbers (eventRow task.id event).body.toList = some event := by
    intro event hevent
    show parse numbers (String.ofList (stringify event)).toList = _
    rw [String.toList_ofList, parse_stringify (hvalid.events event hevent)]
  generalize task.events = events at hread
  induction events with
  | nil => rfl
  | cons event events ih =>
    have hrest := ih fun e he => hread e (List.mem_cons_of_mem _ he)
    rw [List.map_cons, List.mapM_cons, hread event List.mem_cons_self, hrest]
    rfl

end

/-! ## The events that a task records -/

section

variable {numbers : List Char → Option String} (payload : TaskEventPayload numbers)

/-- An event has its number. -/
theorem sequence_event (taskId eventId : String) (occurredAt sequence : ℕ) :
    (payload.event taskId eventId occurredAt sequence).get? "sequence" = some (.ofNat sequence) := by
  have hbefore : "sequence" ∉ keysOf payload.before := by
    intro hmem
    have hall : "sequence" ∈ keysOf (payload.before ++ payload.after) := by
      unfold keysOf at hmem ⊢
      rw [List.map_append]
      exact List.mem_append_left _ hmem
    exact payload.own _ hall (by decide)
  show property? "sequence" (payload.before ++ envelope taskId eventId occurredAt sequence ++ payload.after) = _
  rw [List.append_assoc, property?_append_of_not_mem hbefore]
  rfl

/-- An event is data that can be written and read, if its numbers are. -/
theorem readable_event (taskId eventId : String) {occurredAt sequence : ℕ}
    (htime : numbers (toString occurredAt).toList = some (toString occurredAt))
    (hsequence : numbers (toString sequence).toList = some (toString sequence)) :
    (payload.event taskId eventId occurredAt sequence).Readable numbers := by
  have hnames : (envelope taskId eventId occurredAt sequence).map Prod.fst = envelopeNames := rfl
  have hkeys : (payload.before ++ envelope taskId eventId occurredAt sequence ++ payload.after).map Prod.fst |>.Perm
      (envelopeNames ++ keysOf (payload.before ++ payload.after)) := by
    unfold keysOf
    rw [List.map_append, List.map_append, List.map_append, hnames, ← List.append_assoc]
    exact List.perm_append_comm.append_right _
  apply JsonValue.Readable.object
  · rw [hkeys.nodup_iff]
    apply List.Nodup.append (by decide) payload.nodup
    intro key hkey hown
    exact payload.own key hown hkey
  · intro p hp
    rcases List.mem_append.mp hp with hp | hp
    · rcases List.mem_append.mp hp with hp | hp
      · exact payload.readable p (List.mem_append_left _ hp)
      · have hcases : p = ("eventId", .string eventId) ∨ p = ("taskId", .string taskId) ∨
            p = ("occurredAt", .ofNat occurredAt) ∨ p = ("sequence", .ofNat sequence) := by
          simpa [envelope] using hp
        rcases hcases with rfl | rfl | rfl | rfl
        · exact .string _
        · exact .string _
        · exact readable_ofNat htime
        · exact readable_ofNat hsequence
    · exact payload.readable p (List.mem_append_right _ hp)

end

/-! ## Tasks that are created and go on -/

section

variable {numbers : List Char → Option String}

/-- Other properties leave a task valid, as the numbers of its events do not depend on them. -/
theorem TaskRecord.Valid.withProperties {task : TaskRecord} (h : task.Valid numbers)
    {ps : List (String × JsonValue)} (hps : ValidProperties numbers ps) :
    ({ task with properties := ps } : TaskRecord).Valid numbers :=
  ⟨h.numbered, h.events, hps⟩

/-- Safe integers are read as they are written. -/
def ReadsIntegers (numbers : List Char → Option String) : Prop :=
  ∀ n : ℕ, n ≤ maxSafeInteger → numbers (toString n).toList = some (toString n)

/-- A created task is valid. -/
theorem createAgent_valid (hnumbers : ReadsIntegers numbers) {properties : List (String × JsonValue)}
    (h : ValidProperties numbers properties)
    (created : TaskEventPayload numbers) (granted : List (TaskEventPayload numbers)) (eventIds : ℕ → String)
    {createdAt : ℕ} (htime : createdAt ≤ maxSafeInteger) (hlength : granted.length < maxSafeInteger) :
    (createAgent properties created granted eventIds createdAt).Valid numbers := by
  refine ⟨?_, ?_, h⟩
  · unfold createAgent
    -- The sequence numbers count the events from one.
    dsimp only
    rw [List.length_map, List.length_zipIdx, List.map_map]
    have hsequences : ((created :: granted).zipIdx.map fun p : TaskEventPayload numbers × ℕ =>
        some (JsonValue.ofNat (p.2 + 1))) =
          (List.range' 1 (created :: granted).length).map fun n => some (.ofNat n) := by
      have hindices : (created :: granted).zipIdx.map Prod.snd =
          List.range' 0 (created :: granted).length := List.zipIdx_map_snd 0 _
      have hshift : (List.range' 0 (created :: granted).length).map (fun n => 1 + n) =
          List.range' 1 (created :: granted).length := List.map_add_range' ..
      rw [← hshift, ← hindices, List.map_map, List.map_map]
      apply List.map_congr_left
      intro p _
      show some (JsonValue.ofNat (p.2 + 1)) = some (.ofNat (1 + p.2))
      rw [Nat.add_comm]
    rw [← hsequences]
    apply List.map_congr_left
    intro p _
    exact sequence_event p.1 _ _ _ _
  · intro event hevent
    unfold createAgent at hevent
    obtain ⟨p, hp, rfl⟩ := List.mem_map.mp hevent
    have hindex := List.snd_lt_of_mem_zipIdx hp
    rw [List.length_cons] at hindex
    exact readable_event p.1 _ _ (hnumbers _ htime) (hnumbers _ (by omega))

/-- A task with a further event is valid. -/
theorem recordEvent_valid (hnumbers : ReadsIntegers numbers) {task : TaskRecord} (h : task.Valid numbers)
    (payload : TaskEventPayload numbers) (eventId : String) {occurredAt : ℕ}
    (htime : occurredAt ≤ maxSafeInteger) (hlength : task.events.length < maxSafeInteger) :
    (task.recordEvent payload eventId occurredAt).Valid numbers := by
  refine ⟨?_, ?_, ?_, ?_⟩
  · unfold TaskRecord.recordEvent
    dsimp only
    rw [List.map_append, h.numbered, List.length_append, List.length_singleton, List.range'_1_concat,
      List.map_append, List.map_singleton, List.map_singleton, sequence_event, Nat.add_comm 1]
  · intro event hevent
    rcases List.mem_append.mp hevent with hevent | hevent
    · exact h.events event hevent
    · rw [List.mem_singleton.mp hevent]
      exact readable_event payload _ _ (hnumbers _ htime) (hnumbers _ hlength)
  · exact readable_setProperty (readable_ofNat (hnumbers _ htime)) h.properties.readable
  · show "events" ∉ keysOf (setProperty "updatedAt" _ task.properties)
    rw [keysOf_setProperty]
    split_ifs
    · exact h.properties.own
    · rw [List.mem_append, List.mem_singleton]
      rintro (hmem | heq)
      · exact h.properties.own hmem
      · exact absurd heq (by decide)

end

/-! ## Runs -/

/-- The database, and the task as the process has it. -/
structure StoreState where
  tables : Tables
  task : TaskRecord

/-- The tables after a call, however it ends. -/
def tablesAfter (errors : ℕ → Option String) (task : TaskRecord) (tables : Tables) : Tables :=
  (finalState (persist errors task ⟨tables, none⟩)).tables

/-- What happens to a task and to what is stored of it. The methods of a task record events and change its
other properties. An array has less than `2 ^ 32` items. -/
inductive StoreStep (numbers : List Char → Option String) (taskId : String) : StoreState → StoreState → Prop
  | record {s : StoreState} (payload : TaskEventPayload numbers) (eventId : String) {occurredAt : ℕ}
      (htime : occurredAt ≤ maxSafeInteger) (hlength : s.task.events.length + 1 < 2 ^ 32) :
      StoreStep numbers taskId s { s with task := s.task.recordEvent payload eventId occurredAt }
  | change {s : StoreState} (properties : List (String × JsonValue))
      (hvalid : ValidProperties numbers properties) (hid : textOf (property? "id" properties) = taskId) :
      StoreStep numbers taskId s { s with task := { s.task with properties } }
  | persist {s : StoreState} (errors : ℕ → Option String) :
      StoreStep numbers taskId s { s with tables := tablesAfter errors s.task s.tables }
  | restart {s : StoreState} {snapshot : JsonValue} {task : TaskRecord}
      (hload : s.tables.load numbers taskId = some snapshot) (hrestore : TaskRecord.restore snapshot = some task) :
      StoreStep numbers taskId s { s with task }
  /-- Another task is persisted. -/
  | other {s : StoreState} (errors : ℕ → Option String) (task : TaskRecord) (hother : task.id ≠ taskId) :
      StoreStep numbers taskId s { s with tables := tablesAfter errors task s.tables }

/-- The task was created, and nothing is stored of it. -/
structure Created (numbers : List Char → Option String) (taskId : String) (s : StoreState) : Prop where
  unknown : Unknown s.tables taskId
  created : ∃ properties created granted eventIds createdAt, ValidProperties numbers properties ∧
    textOf (property? "id" properties) = taskId ∧ createdAt ≤ maxSafeInteger ∧ granted.length + 1 < 2 ^ 32 ∧
    s.task = createAgent properties (created : TaskEventPayload numbers) granted eventIds createdAt

/-- A task and the tables, over the steps that may happen. -/
def storeSystem (numbers : List Char → Option String) (taskId : String) : TransitionSystem StoreState where
  init := Created numbers taskId
  step := StoreStep numbers taskId

/-- What is stored of a task is what it was at some moment, and it went on from there. -/
structure Follows (numbers : List Char → Option String) (taskId : String) (s : StoreState) : Prop where
  id : s.task.id = taskId
  valid : s.task.Valid numbers
  stored : Unknown s.tables taskId ∨ ∃ old : TaskRecord, old.id = taskId ∧ old.Valid numbers ∧
    Agrees s.tables old ∧ old.events <+: s.task.events

section

variable {numbers : List Char → Option String} {taskId : String} {s : StoreState}

/-- The events that are stored are the first ones of the task. -/
theorem Follows.rows (h : Follows numbers taskId s) :
    ∃ old, old <+: s.task.events ∧ s.tables.rowsOf s.task.id = old.map (eventRow s.task.id) := by
  rcases h.stored with hunknown | ⟨old, hid, -, hagrees, hprefix⟩
  · refine ⟨[], List.nil_prefix, ?_⟩
    rw [h.id, hunknown.rows]
    rfl
  · refine ⟨old.events, hprefix, ?_⟩
    rw [h.id, ← hid]
    exact hagrees.rows

/-- What was persisted agrees with the task. -/
theorem Follows.agrees (h : Follows numbers taskId s) : Agrees (persisted s.tables s.task) s.task := by
  obtain ⟨old, hprefix, hrows⟩ := h.rows
  exact agrees_persisted (map_sequenceOf h.valid.numbered) hprefix hrows

/-- The tables after a persist are the new ones or the old ones. -/
theorem tablesAfter_cases (errors : ℕ → Option String) (task : TaskRecord) (tables : Tables) :
    tablesAfter errors task tables = persisted tables task ∨ tablesAfter errors task tables = tables := by
  have hspec := persist_spec errors task tables
  unfold tablesAfter
  cases hrun : persist errors task ⟨tables, none⟩ with
  | ok _ c =>
    left
    show c.tables = _
    rw [wp_ok hspec hrun]
  | error e c =>
    right
    show c.tables = _
    rw [(wp_error hspec hrun).1]

/-- What is stored of a task stays where its rows and its snapshot do. -/
theorem Follows.of_same (h : Follows numbers taskId s) {tables : Tables}
    (hrows : tables.rowsOf taskId = s.tables.rowsOf taskId)
    (hsnapshot : tables.snapshots.get? taskId = s.tables.snapshots.get? taskId) :
    Follows numbers taskId { s with tables } := by
  refine ⟨h.id, h.valid, ?_⟩
  rcases h.stored with hunknown | ⟨old, hid, hvalid, hagrees, hprefix⟩
  · left
    exact ⟨hrows.trans hunknown.rows, hsnapshot.trans hunknown.snapshot⟩
  · right
    refine ⟨old, hid, hvalid, ⟨?_, ?_⟩, hprefix⟩
    · rw [← hagrees.rows, hid]
      exact hrows
    · rw [← hagrees.snapshot, hid]
      exact hsnapshot

/-- A created task is followed by its tables. -/
theorem follows_of_created (hnumbers : ReadsIntegers numbers) (h : Created numbers taskId s) :
    Follows numbers taskId s := by
  obtain ⟨hunknown, properties, created, granted, eventIds, createdAt, hvalid, hid, htime, hlength, htask⟩ := h
  have hbound : granted.length < maxSafeInteger := by
    unfold maxSafeInteger
    omega
  refine ⟨?_, ?_, .inl hunknown⟩
  · rw [htask]
    exact hid
  · rw [htask]
    exact createAgent_valid hnumbers hvalid created granted eventIds htime hbound

/-- Every step keeps it. -/
theorem Follows.step (hnumbers : ReadsIntegers numbers) {s' : StoreState} (h : Follows numbers taskId s)
    (hstep : StoreStep numbers taskId s s') : Follows numbers taskId s' := by
  cases hstep with
  -- An event more: the stored rows stay a prefix of the events.
  | record payload eventId htime hlength =>
    have hbound : s.task.events.length < maxSafeInteger := by
      unfold maxSafeInteger
      omega
    refine ⟨?_, recordEvent_valid hnumbers h.valid payload eventId htime hbound, ?_⟩
    · rw [← h.id]
      show textOf (property? "id" (setProperty "updatedAt" _ s.task.properties)) = _
      rw [property?_setProperty, if_neg (by decide)]
      rfl
    · refine h.stored.imp_right ?_
      rintro ⟨old, hid, hvalid, hagrees, hprefix⟩
      exact ⟨old, hid, hvalid, hagrees, hprefix.trans (List.prefix_append _ _)⟩
  | change properties hvalid hid => exact ⟨hid, h.valid.withProperties hvalid, h.stored⟩
  -- The rows are those of the task now, or the tables are as before.
  | persist errors =>
    rcases tablesAfter_cases errors s.task s.tables with htables | htables
    · rw [htables]
      exact ⟨h.id, h.valid, .inr ⟨s.task, h.id, h.valid, h.agrees, List.prefix_rfl⟩⟩
    · rw [htables]
      exact h
  -- What is loaded is what was stored, and it is restored to the same task.
  | restart hload hrestore =>
    rcases h.stored with hunknown | ⟨old, hid, hvalid, hagrees, -⟩
    · unfold Tables.load at hload
      rw [hunknown.snapshot] at hload
      cases hload
    · rw [← hid, load_of_agrees hvalid hagrees] at hload
      obtain rfl := Option.some.inj hload
      rw [restore_snapshot hvalid.properties.own] at hrestore
      obtain rfl := Option.some.inj hrestore
      exact ⟨hid, hvalid, .inr ⟨old, hid, hvalid, hagrees, List.prefix_rfl⟩⟩
  | other errors task hother =>
    rcases tablesAfter_cases errors task s.tables with htables | htables
    · rw [htables]
      exact h.of_same (persisted_of_ne hother).1 (persisted_of_ne hother).2
    · rw [htables]
      exact h

/-- A task is followed by its tables in every run. -/
theorem follows_of_reachable (hnumbers : ReadsIntegers numbers) (h : (storeSystem numbers taskId).Reachable s) :
    Follows numbers taskId s :=
  h.invariant (fun _ => follows_of_created hnumbers) fun _ _ _ hfollows hstep => hfollows.step hnumbers hstep

/-- After a call that does not fail, the events that are stored are those of the stored snapshot, in their
order and numbered from one. A call that fails changes nothing. -/
theorem persisted_agree (hnumbers : ReadsIntegers numbers) (h : (storeSystem numbers taskId).Reachable s)
    (errors : ℕ → Option String) :
    (∀ c, persist errors s.task ⟨s.tables, none⟩ = .ok () c →
      c.tables.load numbers taskId = some s.task.snapshot ∧
        s.task.snapshot.get? "events" = some (.array s.task.events) ∧
        c.tables.eventsOf numbers taskId = some s.task.events ∧
        s.task.events.map (·.get? "sequence") =
          (List.range' 1 s.task.events.length).map fun n => some (.ofNat n)) ∧
      ∀ e c, persist errors s.task ⟨s.tables, none⟩ = .error e c → c = ⟨s.tables, none⟩ := by
  have hfollows := follows_of_reachable hnumbers h
  have hspec := persist_spec errors s.task s.tables
  constructor
  · intro c hrun
    obtain rfl := wp_ok hspec hrun
    have hload := load_of_agrees hfollows.valid hfollows.agrees
    have hevents := eventsOf_of_agrees hfollows.valid hfollows.agrees
    rw [hfollows.id] at hload hevents
    exact ⟨hload, property?_events hfollows.valid.properties.own, hevents, hfollows.valid.numbered⟩
  · intro e c hrun
    exact (wp_error hspec hrun).1

end

/-- An event that says nothing of its own. -/
def emptyPayload (numbers : List Char → Option String) : TaskEventPayload numbers where
  before := []
  nodup := by decide
  own := by simp [keysOf]
  readable := by simp

/-- A task that was only created, and an empty database. -/
def createdState : StoreState where
  tables := ⟨.empty, []⟩
  task := createAgent [("id", .string "task")] (emptyPayload fun cs => some (String.ofList cs)) [] (fun _ => "event") 0

/-- The state of a task that was just created. -/
theorem created_createdState : Created (fun cs => some (String.ofList cs)) "task" createdState := by
  refine ⟨⟨rfl, rfl⟩, [("id", .string "task")], emptyPayload _, [], fun _ => "event", 0, ⟨?_, by decide⟩, rfl,
    Nat.zero_le _, by decide, rfl⟩
  apply JsonValue.Readable.object
  · decide
  · intro p hp
    rw [List.mem_singleton.mp hp]
    exact .string _

/-- The task after an event. -/
def notedTask : TaskRecord :=
  createdState.task.recordEvent (emptyPayload fun cs => some (String.ofList cs)) "noted" 5

/-- The disk is full when the transaction is to be committed. -/
def fullDisk (n : ℕ) : Option String := if n = 2 then some "database or disk is full" else none

/-- The task is persisted twice with its first two events, the third one is not. -/
def restartedState : StoreState where
  tables := persisted (persisted createdState.tables notedTask) notedTask
  task := notedTask

/-- A call that failed, two calls that did not, an event that was lost, and a restart lead there. -/
theorem reachable_restartedState (hnumbers : ReadsIntegers fun cs => some (String.ofList cs)) :
    (storeSystem (fun cs => some (String.ofList cs)) "task").Reachable restartedState := by
  have hfailed : tablesAfter fullDisk createdState.task createdState.tables = createdState.tables := rfl
  have hstored : ∀ task tables, tablesAfter (fun _ => none) task tables = persisted tables task := by
    intro task tables
    unfold tablesAfter
    rw [persist_ok]
    rfl
  have hinit := @TransitionSystem.Reachable.of_init _ (storeSystem _ "task") _ created_createdState
  have hrefused := hinit.step (.persist fullDisk)
  rw [hfailed] at hrefused
  have hnoted := hrefused.step (@StoreStep.record _ "task" _ (emptyPayload _) "noted" 5 (by decide) (by decide))
  have hfirst := hnoted.step (.persist fun _ => none)
  have hsecond := hfirst.step (.persist fun _ => none)
  rw [hstored, hstored] at hsecond
  rw [hstored] at hfirst
  -- What is stored is the task with its two events, which is what the new process restores.
  have hvalid := (follows_of_reachable hnumbers hsecond).valid
  have hload := load_of_agrees hvalid (follows_of_reachable hnumbers hfirst).agrees
  have hrestore := restore_snapshot hvalid.properties.own
  have hlost := hsecond.step (@StoreStep.record _ "task" _ (emptyPayload _) "lost" 6 (by decide) (by decide))
  exact hlost.step (.restart hload hrestore)

/-- The rows agree after a failed persist, a repeated one and a restart. -/
theorem persisted_agree_restarted :
    notedTask.events.length = 2 ∧
      ∃ c, persist (fun _ => none) restartedState.task ⟨restartedState.tables, none⟩ = .ok () c ∧
        c.tables.eventsOf (fun cs => some (String.ofList cs)) "task" = some notedTask.events := by
  have hnumbers : ReadsIntegers fun cs => some (String.ofList cs) := by
    intro n _
    show some (String.ofList (toString n).toList) = _
    rw [String.ofList_toList]
  have hagree := (persisted_agree hnumbers (reachable_restartedState hnumbers) fun _ => none).1
  have hrun := persist_ok restartedState.task restartedState.tables
  exact ⟨rfl, _, hrun, (hagree _ hrun).2.2.1⟩

end OsAgent.Persistence
