import Mathlib.Data.Finset.Card
import ObjectMeta.Proofs.Store.Contents
import ObjectMeta.Store.Journal

/-!
# Stores as four maps

A store in memory keeps one map for all tables, a durable one keeps a map for each table behind a
journal, and may be closed and opened again between any two calls.  Both answer every series of
calls alike (`Store.served_as_maps`): each call is told what the last put or delete of its key in
its table left, so that no call changes what calls elsewhere are told.  The store in memory counts
the keys of a table whose last write was a put.
-/

namespace ObjectMeta

/-! ## 1. Calls and their answers -/

inductive StoreRequest where
  | get (table : Table) (key : Bytes)
  | contains (table : Table) (key : Bytes)
  | put (table : Table) (key value : Bytes)
  | delete (table : Table) (key : Bytes)
  deriving DecidableEq, Repr

inductive StoreAnswer where
  | value (value? : Option Bytes)
  | present (found : Bool)
  | done
  deriving DecidableEq, Repr

/-- What happens to a store: it is called, or it is closed and opened again. -/
inductive StoreEvent where
  | call (request : StoreRequest)
  | reopen
  deriving DecidableEq, Repr

namespace StoreRequest

def place : StoreRequest → Table × Bytes
  | get table key | contains table key | put table key _ | delete table key => (table, key)

/-- What a call makes of the value at a place; `none` if it does not write there. -/
def write? (request : StoreRequest) (table : Table) (key : Bytes) : Option (Option Bytes) :=
  if request.place = (table, key) then
    match request with
    | put _ _ value => some (some value)
    | delete .. => some none
    | get .. | contains .. => none
  else none

/-- What the last put or delete at a place left there. -/
def lastWrite (history : List StoreRequest) (table : Table) (key : Bytes) : Option Bytes :=
  (history.reverse.findSome? (·.write? table key)).getD none

/-- What four maps with this history tell a call. -/
def answerAfter (history : List StoreRequest) : StoreRequest → StoreAnswer
  | get table key => .value (lastWrite history table key)
  | contains table key => .present (lastWrite history table key).isSome
  | put .. | delete .. => .done

def answers (requests : List StoreRequest) : List StoreAnswer :=
  requests.mapIdx fun i request => request.answerAfter (requests.take i)

theorem lastWrite_concat (history : List StoreRequest) (request : StoreRequest) (table : Table)
    (key : Bytes) : lastWrite (history ++ [request]) table key =
      (request.write? table key).getD (lastWrite history table key) := by
  unfold lastWrite
  rw [List.reverse_append, List.reverse_singleton, List.singleton_append, List.findSome?_cons]
  cases request.write? table key <;> rfl

/-- A call elsewhere is of no account. -/
theorem lastWrite_elsewhere {request : StoreRequest} {table : Table} {key : Bytes}
    (h : request.place ≠ (table, key)) (before after : List StoreRequest) :
    lastWrite (before ++ request :: after) table key = lastWrite (before ++ after) table key := by
  have hnone : request.write? table key = none := if_neg h
  unfold lastWrite
  rw [List.reverse_append, List.reverse_append, List.reverse_cons, List.findSome?_append,
    List.findSome?_append, List.findSome?_append, List.findSome?_singleton, hnone, Option.or_none]

theorem answerAfter_elsewhere {request other : StoreRequest} (h : request.place ≠ other.place)
    (before after : List StoreRequest) :
    request.answerAfter (before ++ other :: after) = request.answerAfter (before ++ after) := by
  cases request with
  | get table key => exact congrArg StoreAnswer.value (lastWrite_elsewhere (Ne.symm h) before after)
  | contains table key =>
    exact congrArg (fun value? => StoreAnswer.present value?.isSome)
      (lastWrite_elsewhere (Ne.symm h) before after)
  | put | delete => rfl

end StoreRequest

def StoreEvent.calls (events : List StoreEvent) : List StoreRequest :=
  events.filterMap fun
    | call request => some request
    | reopen => none

theorem StoreEvent.calls_call (requests : List StoreRequest) :
    calls (requests.map call) = requests := by
  unfold calls
  rw [List.filterMap_map]
  exact List.filterMap_some

namespace Store

def serve (store : Store) : StoreRequest → StoreAnswer × Store
  | .get table key => (.value (store.get table key), store)
  | .contains table key => (.present (store.contains table key), store)
  | .put table key value => (.done, store.put table key value)
  | .delete table key => (.done, store.delete table key)

def step (store : Store) : StoreEvent → Store
  | .call request => (store.serve request).2
  | .reopen => store.reopen

def run (store : Store) (events : List StoreEvent) : Store := events.foldl step store

def answers : Store → List StoreEvent → List StoreAnswer
  | _, [] => []
  | store, .call request :: rest => (store.serve request).1 :: answers (store.serve request).2 rest
  | store, .reopen :: rest => answers store.reopen rest

/-! ## 2. The last write decides -/

variable {store : Store} {history : List StoreRequest}

def Recalls (store : Store) (history : List StoreRequest) : Prop :=
  ∀ table key, store.get table key = StoreRequest.lastWrite history table key

theorem Recalls.answer (h : store.Recalls history) (request : StoreRequest) :
    (store.serve request).1 = request.answerAfter history := by
  cases request with
  | get table key => exact congrArg StoreAnswer.value (h table key)
  | contains table key =>
    exact congrArg (fun value? => StoreAnswer.present value?.isSome) (h table key)
  | put | delete => rfl

/-- A call is added to the history. -/
theorem Recalls.serve (h : store.Recalls history) (request : StoreRequest) :
    (store.serve request).2.Recalls (history ++ [request]) := by
  intro table key
  rw [StoreRequest.lastWrite_concat, ← h table key]
  cases request with
  | get table' key' | contains table' key' =>
    unfold StoreRequest.write?
    split <;> rfl
  | put table' key' value =>
    refine (store.get_put table' table key' key value).trans ?_
    by_cases hplace : table' = table ∧ key' = key <;>
      simp [StoreRequest.write?, StoreRequest.place, hplace]
  | delete table' key' =>
    refine (store.get_delete table' table key' key).trans ?_
    by_cases hplace : table' = table ∧ key' = key <;>
      simp [StoreRequest.write?, StoreRequest.place, hplace]

theorem reopen_eq (store : Store) : store.reopen = store := by
  cases store with
  | memory => rfl
  | durable store => exact congrArg durable store.reopen_eq

theorem Recalls.reopen (h : store.Recalls history) : store.reopen.Recalls history := by
  rwa [reopen_eq]

theorem Recalls.run (h : store.Recalls history) (events : List StoreEvent) :
    (store.run events).Recalls (history ++ StoreEvent.calls events) := by
  induction events generalizing store history with
  | nil => rwa [StoreEvent.calls, List.filterMap_nil, List.append_nil]
  | cons event rest ih =>
    cases event with
    | call request =>
      have hrest := ih (h.serve request)
      rwa [List.append_assoc] at hrest
    | reopen => exact ih h.reopen

theorem Recalls.answers (h : store.Recalls history) (events : List StoreEvent) :
    store.answers events = (StoreEvent.calls events).mapIdx fun i request =>
      request.answerAfter (history ++ (StoreEvent.calls events).take i) := by
  induction events generalizing store history with
  | nil => rfl
  | cons event rest ih =>
    cases event with
    | call request =>
      have hcalls : StoreEvent.calls (.call request :: rest) = request :: StoreEvent.calls rest := rfl
      rw [hcalls, List.mapIdx_cons, Store.answers, h.answer, ih (h.serve request)]
      simp
    | reopen => exact ih h.reopen

end Store

/-! ## 3. Counting keys -/

namespace MemoryStore

instance : Std.LawfulEqCmp entryOrder := ⟨entryOrder_eq_iff.1⟩

theorem mem_keys_iff (store : MemoryStore) (table : Table) (key : Bytes) :
    (table, key) ∈ store.entries.keys ↔ (store.get table key).isSome := by
  rw [Std.ExtTreeMap.mem_keys, Std.ExtTreeMap.mem_iff_isSome_getElem?]
  rfl

/-- The size of a table is the number of keys with a value. -/
theorem size_eq_card (store : MemoryStore) (table : Table) :
    ∃ keys : Finset Bytes, (∀ key, key ∈ keys ↔ (store.get table key).isSome) ∧
      store.size table = keys.card := by
  let entries := store.entries.keys.filter fun e => decide (e.1 = table)
  have hentries : ∀ e, e ∈ entries ↔ e ∈ store.entries.keys ∧ e.1 = table := by
    simp [entries]
  have hnodup : entries.Nodup := by
    refine List.Nodup.filter _ (store.entries.distinct_keys.imp fun hne heq => hne ?_)
    exact entryOrder_eq_iff.2 heq
  -- entries of one table are told apart by their keys
  have hkeys : (entries.map (·.2)).Nodup := by
    refine hnodup.map_on fun e he e' he' heq => Prod.ext ?_ heq
    rw [((hentries e).1 he).2, ((hentries e').1 he').2]
  refine ⟨(entries.map (·.2)).toFinset, fun key => ?_, ?_⟩
  · rw [List.mem_toFinset, List.mem_map, ← mem_keys_iff]
    constructor
    · rintro ⟨e, he, rfl⟩
      obtain ⟨hmem, rfl⟩ := (hentries e).1 he
      exact hmem
    · intro hmem
      exact ⟨(table, key), (hentries _).2 ⟨hmem, rfl⟩, rfl⟩
  · rw [List.toFinset_card_of_nodup hkeys]
    exact (List.length_map ..).symm

end MemoryStore

namespace Store

/-! ## 4. Both kinds of stores -/

def inMemory (events : List StoreEvent) : Store :=
  (memory {}).run ((StoreEvent.calls events).map .call)

def onDisk (events : List StoreEvent) : Store := (durable {}).run events

theorem recalls_empty : (memory {}).Recalls [] := get_empty

theorem recalls_new : (durable {}).Recalls [] := by
  intro table key
  cases table <;> exact Std.ExtTreeMap.getElem?_empty

theorem inMemory_recalls (events : List StoreEvent) :
    (inMemory events).Recalls (StoreEvent.calls events) := by
  have hrun := recalls_empty.run ((StoreEvent.calls events).map .call)
  rwa [StoreEvent.calls_call] at hrun

theorem onDisk_recalls (events : List StoreEvent) :
    (onDisk events).Recalls (StoreEvent.calls events) := recalls_new.run events

/-- Both kinds of stores, empty at first, serve calls as four maps do. -/
structure ServedAsMaps (events : List StoreEvent) : Prop where
  /-- The store in memory tells the calls what four maps tell them. -/
  memory : (Store.memory {}).answers ((StoreEvent.calls events).map .call) =
    StoreRequest.answers (StoreEvent.calls events)
  /-- So does the durable store, wherever it is closed and opened again. -/
  durable : (Store.durable {}).answers events = StoreRequest.answers (StoreEvent.calls events)
  /-- Without a call for one place, a later call for another is told the same. -/
  elsewhere : ∀ before other after, events = before ++ .call other :: after →
    ∀ request : StoreRequest, request.place ≠ other.place →
      ((inMemory events).serve request).1 = ((inMemory (before ++ after)).serve request).1 ∧
        ((onDisk events).serve request).1 = ((onDisk (before ++ after)).serve request).1
  /-- The store in memory counts the keys of a table whose last write was a put. -/
  size : ∀ table, ∃ keys : Finset Bytes,
    (∀ key, key ∈ keys ↔
      (StoreRequest.lastWrite (StoreEvent.calls events) table key).isSome) ∧
    (inMemory events).size? table = some keys.card
  /-- The bytes in which the durable store is kept spell the whole of it. -/
  kept : (Journal.decode (Journal.encode (onDisk events).journal)).map
    (fun journal => Store.durable (.ofJournal journal)) = some (onDisk events)

/-- A store in memory stays one. -/
theorem exists_run_memory (store : MemoryStore) (events : List StoreEvent) :
    ∃ after, (memory store).run events = memory after := by
  induction events generalizing store with
  | nil => exact ⟨store, rfl⟩
  | cons event rest ih =>
    cases event with
    | call request => cases request <;> exact ih _
    | reopen => exact ih store

/-- A durable store stays one. -/
theorem exists_run_durable (store : DurableStore) (events : List StoreEvent) :
    ∃ after, (durable store).run events = durable after := by
  induction events generalizing store with
  | nil => exact ⟨store, rfl⟩
  | cons event rest ih =>
    cases event with
    | call request => cases request <;> exact ih _
    | reopen => exact ih store.reopen

/-- Whatever happens to them, both kinds of stores serve calls as four maps do. -/
theorem served_as_maps (events : List StoreEvent) : ServedAsMaps events where
  memory := by
    have hanswers := recalls_empty.answers ((StoreEvent.calls events).map .call)
    rwa [StoreEvent.calls_call] at hanswers
  durable := recalls_new.answers events
  elsewhere before other after hsplit request hplace := by
    have hcalls : StoreEvent.calls events =
        StoreEvent.calls before ++ other :: StoreEvent.calls after := by
      rw [hsplit, StoreEvent.calls, List.filterMap_append]
      rfl
    have hrest : StoreEvent.calls (before ++ after) =
        StoreEvent.calls before ++ StoreEvent.calls after := List.filterMap_append
    have hsame : request.answerAfter (StoreEvent.calls events) =
        request.answerAfter (StoreEvent.calls (before ++ after)) := by
      rw [hcalls, hrest]
      exact StoreRequest.answerAfter_elsewhere hplace _ _
    exact ⟨by rw [(inMemory_recalls _).answer, (inMemory_recalls _).answer, hsame],
      by rw [(onDisk_recalls _).answer, (onDisk_recalls _).answer, hsame]⟩
  size table := by
    obtain ⟨after, hafter⟩ := exists_run_memory {} ((StoreEvent.calls events).map .call)
    obtain ⟨keys, hkeys, hsize⟩ := after.size_eq_card table
    have hrecalls := inMemory_recalls events
    unfold inMemory at hrecalls ⊢
    rw [hafter] at hrecalls ⊢
    refine ⟨keys, fun key => ?_, congrArg some hsize⟩
    rw [hkeys, ← hrecalls table key]
    rfl
  kept := by
    obtain ⟨after, hafter⟩ := exists_run_durable {} events
    unfold onDisk
    rw [hafter, Journal.decode_encode]
    exact congrArg (fun store => some (Store.durable store)) after.reopen_eq

/-- An empty value is not a missing one, and the same key of another table is another place. -/
example : (durable {}).answers [.call (.put .keys [1] []), .reopen, .call (.get .keys [1]),
    .call (.contains .openKeys [1])] = [.done, .value (some []), .present false] := rfl

end Store

end ObjectMeta
