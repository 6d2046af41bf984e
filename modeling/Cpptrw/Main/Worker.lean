import Cpptrw.Main.Dialogue
import Cpptrw.Main.EventLoop

/-!
# A worker and its clients (`sl_main_event_loop`)

The event loop with what is in its slots. `epoll_wait` hands out a batch of
ready descriptors, and each of them is handled in its turn, while the kernel
answers `accept`, `fcntl`, `epoll_ctl` and `recv` as it likes. All slots share
one machine, whose state they change in turns, and each has an arena of its own.
What a client sent and was sent is a history; it starts with the client. Signals,
and what is done behind the loop, are left out. No fault is said up to the
literals of log lines, which are taken to land (`SlString.push`): a client whose
parameter has a name of 48 octets has one of them stored behind its buffer.
-/

namespace Cpptrw.Main

open Lib Lib.Prog Lib.Platform Text Fcgi Hashtable

/-- `SL_MAIN_MAX_EVENTS`. -/
def maxEvents : Nat := 256

/-- What a worker runs on: the arenas of its slots, over one state of the machine. -/
structure Machine where
  State : Type
  allocate : Nat → State → Nat → Bool × State
  rewind : Nat → State → State
  writev : Nat → State → List (List UInt8) → Option Nat × State

/-- The platform of a slot. -/
def Machine.platform (M : Machine) (n : Nat) : Platform where
  State := M.State
  allocate := M.allocate n
  rewind := M.rewind n
  writev := M.writev n

/-- No arena is refused memory. -/
def Machine.Succeeds (M : Machine) : Prop := ∀ n, (M.platform n).Succeeds

/-- A slot's connection, and the history of its client: what `recv` returned, event by event,
and what `writev` was given. -/
structure Client where
  connection : Connection
  received : List (List Received) := []
  sent : List (List UInt8) := []

/-- The state of `sl_main_event_loop`; `pending` is what is left of the batch. -/
structure Worker (M : Machine) where
  loop : EventLoop
  serverSocket : Nat
  clients : Nat → Client
  state : M.State
  pending : List Nat := []
  gone : List (Nat × Client) := []

/-- What the kernel answers while an event is handled. -/
structure Answer where
  accepted : Option Nat := none
  nonblocking : Bool := true
  added : Bool := true
  received : List Received := []

variable {M : Machine}

namespace Worker

/-- The branch for the server socket, when `accept` has returned a descriptor. -/
def acceptClient (w : Worker M) (clientSocket : Nat) (nonblocking added : Bool) : Except Fault (Worker M) :=
  let loop := w.loop.accept clientSocket nonblocking added
  match if nonblocking && added then findFreeConnection w.loop.connections else none with
  | none => .ok { w with loop }
  | some n =>
    match (initConnection (w.clients n).connection : Prog (M.platform n) _) w.state with
    | .error e => .error e
    | .ok (connection, state) =>
      .ok { w with loop, clients := Function.update w.clients n { connection := { connection with executed := [] } }, state }

/-- The branch for a client. Where there is no connection, its arena is used all the same. -/
def handleClient (w : Worker M) (socketFd : Nat) (results : List Received) : Except Fault (Worker M) :=
  match findConnection w.loop.connections socketFd with
  | none => .error .nullPointer
  | some n =>
    let client := w.clients n
    match (processConnection client.connection results : Prog (M.platform n).recording _) (@unwritten (M.platform n) w.state) with
    | .error e => .error e
    | .ok ((call, connection), s) =>
      let client : Client := ⟨connection, client.received ++ [results], client.sent ++ written s⟩
      .ok { w with
        loop := w.loop.ready socketFd call.kept, state := Prod.fst s
        clients := Function.update w.clients n client
        gone := if call.kept then w.gone else w.gone ++ [(n, client)] }

/-- One pass of the loop over a batch. -/
def handle (w : Worker M) (answer : Answer) : Except Fault (Worker M) :=
  match w.pending with
  | [] => .ok w
  | fd :: rest =>
    let w := { w with pending := rest }
    if fd = w.serverSocket then
      match answer.accepted with
      | none => .ok w
      | some clientSocket => w.acceptClient clientSocket answer.nonblocking answer.added
    else w.handleClient fd answer.received

/-- `epoll_wait` returns a batch of descriptors that were registered, each once; or
one of them is handled. A descriptor that is accepted was not open. -/
inductive Step : Worker M → Worker M → Prop
  | wait {w : Worker M} {batch : List Nat} (idle : w.pending = []) (few : batch.length ≤ maxEvents) (distinct : batch.Nodup)
      (ready : ∀ fd ∈ batch, fd = w.serverSocket ∨ fd ∈ w.loop.registered) : Step w { w with pending := batch }
  | handle {w w' : Worker M} {answer : Answer} (unused : ∀ fd, answer.accepted = some fd → fd ∉ w.loop.opened)
      (run : w.handle answer = .ok w') : Step w w'

/-- The loop is entered with an empty pool; the server socket is open. -/
structure Start (w : Worker M) : Prop where
  loop : w.loop.Start
  server : w.serverSocket ∈ w.loop.opened
  pending : w.pending = []
  gone : w.gone = []

end Worker

/-! ## A client on its own -/

/-- What a client sent and was sent is what it would be without any others: `calls` are how its events ended. -/
structure ServedAlone (P : Platform) (client : Client) (calls : List Call) : Prop where
  served : Ensures (serve .fresh client.received : Prog P.recording _) (· = (calls, client.connection))
  complete : calls.length = client.received.length
  sent : client.sent = client.connection.executed.map fun request => reply request.requestId

section Serving

variable {P : Platform}

theorem steady_parseBuffer (all : P.Succeeds) (connection : Connection) (buffer : List UInt8) :
    Steady (parseBuffer connection buffer : Prog P _) := (agree_parseBuffer all connection buffer).left

theorem steady_recvLoop (all : P.Succeeds) (results : List Received) (connection : Connection) :
    Steady (recvLoop connection results : Prog P _) :=
  compositional_recvLoop (compositional_steady all) (steady_parseBuffer all) results connection

theorem steady_processConnection (all : P.Succeeds) (connection : Connection) (results : List Received) :
    Steady (processConnection connection results : Prog P _) := by
  refine (steady_recvLoop all results connection).bind fun last => ?_
  split
  · exact .pure _
  · split
    · simp only [initConnection, bind_assoc, pure_bind]
      exact .drop ensures_rewind (Agree.drop ensures_rewind (.pure _)).symm
    · exact .pure _

/-- Later events are looked at if all the earlier ones kept the connection. -/
theorem serve_append (earlier later : List (List Received)) : ∀ connection : Connection,
    (serve connection (earlier ++ later) : Prog P _) = serve connection earlier >>= fun r =>
      if ∀ call ∈ r.1, call.kept = true then serve r.2 later >>= fun r' => pure (r.1 ++ r'.1, r'.2) else pure r := by
  induction earlier with
  | nil =>
    intro connection
    simp [serve]
  | cons results earlier ih =>
    intro connection
    simp only [List.cons_append, serve, ih, bind_assoc]
    refine congrArg _ (funext fun r => ?_)
    by_cases kept : r.1.kept = true
    · simp only [if_pos kept, bind_assoc, pure_bind]
      refine congrArg _ (funext fun r' => ?_)
      have both : (∀ call ∈ r.1 :: r'.1, call.kept = true) ↔ ∀ call ∈ r'.1, call.kept = true := by simp [kept]
      by_cases every : ∀ call ∈ r'.1, call.kept = true
      · rw [if_pos every, if_pos (both.mpr every)]
        simp only [bind_assoc, pure_bind, List.cons_append]
      · rw [if_neg every, if_neg (mt both.mp every), pure_bind]
    · simp only [if_neg kept, pure_bind]
      rw [if_neg fun every => kept (every r.1 List.mem_cons_self)]

/-- **One more event.** -/
theorem ServedAlone.snoc (all : P.Succeeds) {client : Client} {calls : List Call} (h : ServedAlone P client calls)
    (kept : ∀ call ∈ calls, call.kept = true) {results : List Received} {s s' : P.recording.State} {call : Call}
    {connection : Connection} (fresh : written s = [])
    (run : (processConnection client.connection results : Prog P.recording _) s = .ok ((call, connection), s')) :
    ServedAlone P ⟨connection, client.received ++ [results], client.sent ++ written s'⟩ (calls ++ [call]) := by
  have served : Ensures (processConnection client.connection results : Prog P.recording _) (· = (call, connection)) := by
    intro t
    have same := steady_processConnection all.recording client.connection results s t
    rw [value, run] at same
    obtain ⟨t', run'⟩ := exists_run_of_value same.symm
    exact ⟨_, t', run', rfl⟩
  constructor
  · rw [serve_append]
    refine h.served.bind fun r same => ?_
    subst same
    rw [if_pos kept]
    simp only [serve, bind_assoc, pure_bind]
    refine served.bind fun r same => ?_
    subst same
    split
    · exact .pure rfl
    · exact .pure rfl
  · simp [h.complete]
  · obtain ⟨more, told, requests, executed, replied⟩ := tells_processConnection all client.connection results s _ s' run
    dsimp only at executed ⊢
    rw [told, fresh, List.nil_append, h.sent, executed, List.map_append, replied]

/-- A client that was accepted. -/
theorem ServedAlone.fresh : ServedAlone P ⟨.fresh, [], []⟩ [] where
  served := .pure rfl
  complete := rfl
  sent := rfl

/-- The connection of a client is sound. -/
theorem ServedAlone.sound (all : P.Succeeds) {client : Client} {calls : List Call} (h : ServedAlone P client calls)
    (s : P.recording.State) : Sound P.recording client.connection := by
  obtain ⟨r, s', run, same⟩ := h.served s
  subst same
  exact (ensures_serve all.recording client.received Connection.fresh_sound).of_run run

end Serving

/-! ## The pool -/

namespace EventLoop

variable {loop : EventLoop} {n socketFd : Nat}

/-- Accepting either places the descriptor in the first free slot, or closes it again. -/
theorem accept_cases (loop : EventLoop) (clientSocket : Nat) (nonblocking added : Bool) :
    (∃ n, (if nonblocking && added then findFreeConnection loop.connections else none) = some n ∧
      loop.accept clientSocket nonblocking added =
        (({ loop with opened := clientSocket :: loop.opened, registered := clientSocket :: loop.registered } : EventLoop).initConnection
          n clientSocket).setBusy n true) ∨
    (if nonblocking && added then findFreeConnection loop.connections else none) = none ∧
      loop.accept clientSocket nonblocking added =
        ({ loop with opened := clientSocket :: loop.opened } : EventLoop).close clientSocket := by
  unfold EventLoop.accept
  cases nonblocking with
  | false => exact Or.inr ⟨rfl, rfl⟩
  | true =>
    cases free : findFreeConnection loop.connections with
    | none => exact Or.inr ⟨by simp, by simp [free]⟩
    | some n =>
      cases added with
      | false => exact Or.inr ⟨rfl, by simp [free]⟩
      | true => exact Or.inl ⟨n, rfl, by simp [free]⟩

/-- Who is busy behind a client was placed. -/
theorem busy_placed (fits : n < loop.connections.length) (m fd : Nat) :
    ((loop.initConnection n socketFd).setBusy n true).Busy m fd ↔ m = n ∧ fd = socketFd ∨ m ≠ n ∧ loop.Busy m fd := by
  rw [Busy, getElem?_placed loop fits]
  by_cases same : m = n
  · simp [same, eq_comm]
  · simp [same, Busy]

/-- Handling a ready client either places it in its slot again, or releases the slot and closes the descriptor. -/
theorem Ordered.ready_eq (h : loop.Ordered) (busy : loop.Busy n socketFd) (kept : Bool) :
    loop.ready socketFd kept = if kept then (loop.initConnection n socketFd).setBusy n true
      else (loop.setBusy n false).close socketFd := by
  have here : loop.connections[n]? = some ⟨socketFd, true⟩ := busy
  unfold EventLoop.ready
  rw [h.findConnection busy]
  dsimp only
  rw [here]

/-- Who is busy behind a client was handled. -/
theorem Ordered.busy_ready (h : loop.Ordered) (busy : loop.Busy n socketFd) (kept : Bool) (m fd : Nat) :
    (loop.ready socketFd kept).Busy m fd ↔ if kept then loop.Busy m fd else m ≠ n ∧ loop.Busy m fd := by
  rw [h.ready_eq busy]
  cases kept with
  | true =>
    rw [if_pos rfl, if_pos rfl, busy_placed busy.lt]
    constructor
    · intro there
      rcases there with ⟨rfl, rfl⟩ | ⟨-, there⟩
      · exact busy
      · exact there
    · intro there
      by_cases same : m = n
      · subst same
        exact Or.inl ⟨rfl, congrArg Slot.socketFd (Option.some.inj (there.symm.trans busy))⟩
      · exact Or.inr ⟨same, there⟩
  | false =>
    rw [if_neg (by decide), if_neg (by decide), Busy]
    rw [show ((loop.setBusy n false).close socketFd).connections = (loop.setBusy n false).connections from rfl,
      getElem?_released loop busy]
    by_cases same : m = n
    · simp [same]
    · simp [same, Busy]

/-- The busy slots hold the registered descriptors, each once. -/
theorem Ordered.perm (h : loop.Ordered) (distinct : loop.registered.Nodup) :
    ((loop.connections.filter Slot.isBusy).map Slot.socketFd).Perm loop.registered := by
  have once : ((loop.connections.filter Slot.isBusy).map Slot.socketFd).Nodup := by
    rw [List.Nodup, List.pairwise_map, List.pairwise_filter, List.pairwise_iff_getElem]
    intro i j hi hj less busy busy' same
    have first : loop.Busy i loop.connections[i].socketFd := by
      rw [Busy, List.getElem?_eq_getElem hi, ← busy]
    have second : loop.Busy j loop.connections[i].socketFd := by
      rw [Busy, List.getElem?_eq_getElem hj, same, ← busy']
    exact absurd (h.distinct first second) (Nat.ne_of_lt less)
  refine (List.perm_ext_iff_of_nodup once distinct).mpr fun fd => ?_
  rw [h.registered]
  constructor
  · intro there
    obtain ⟨slot, listed, rfl⟩ := List.mem_map.mp there
    obtain ⟨inside, busy⟩ := List.mem_filter.mp listed
    obtain ⟨n, fits, here⟩ := List.getElem_of_mem inside
    exact ⟨n, by rw [Busy, List.getElem?_eq_getElem fits, here, ← busy]⟩
  · intro taken
    obtain ⟨n, busy⟩ := taken
    refine List.mem_map.mpr ⟨⟨fd, true⟩, List.mem_filter.mpr ⟨List.mem_of_getElem? busy, rfl⟩, rfl⟩

/-- There is a free slot as long as there are fewer clients than slots. -/
theorem Ordered.findFreeConnection_isSome (h : loop.Ordered) (distinct : loop.registered.Nodup) :
    (findFreeConnection loop.connections).isSome ↔ loop.registered.length < loop.connections.length := by
  have count := (h.perm distinct).length_eq
  rw [List.length_map] at count
  have most := List.length_filter_le Slot.isBusy loop.connections
  rw [findFreeConnection, List.findIdx?_isSome, ← count]
  constructor
  · intro free
    obtain ⟨slot, there, idle⟩ := List.any_eq_true.mp free
    refine lt_of_le_of_ne most fun same => ?_
    have busy := List.length_filter_eq_length_iff.mp same slot there
    simp [busy] at idle
  · intro few
    by_contra full
    refine absurd (List.length_filter_eq_length_iff.mpr fun slot there => ?_) (Nat.ne_of_lt few)
    by_contra idle
    exact full (List.any_eq_true.mpr ⟨slot, there, by simpa using idle⟩)

end EventLoop

/-! ## Every run -/

namespace Worker

/-- A client that is still there: all its events kept the connection. -/
def Served (M : Machine) (n : Nat) (client : Client) : Prop :=
  ∃ calls, ServedAlone (M.platform n) client calls ∧ ∀ call ∈ calls, call.kept = true

/-- A client that is gone: its last event closed the connection. -/
def Dismissed (M : Machine) (n : Nat) (client : Client) : Prop :=
  ∃ calls call, ServedAlone (M.platform n) client (calls ++ [call]) ∧ (∀ call ∈ calls, call.kept = true) ∧ call.kept = false

/-- **The pool, the batch and the clients fit together.** -/
structure Consistent (first w : Worker M) : Prop where
  ordered : w.loop.Ordered
  size : w.loop.connections.length = maxConnections
  server : w.serverSocket ∈ first.loop.opened
  opened : ∀ fd, fd ∈ w.loop.opened ↔ fd ∈ first.loop.opened ∨ fd ∈ w.loop.registered
  apart : ∀ fd ∈ first.loop.opened, fd ∉ w.loop.registered
  once : w.loop.registered.Nodup
  distinct : w.pending.Nodup
  ready : ∀ fd ∈ w.pending, fd = w.serverSocket ∨ fd ∈ w.loop.registered
  served : ∀ n fd, w.loop.Busy n fd → Served M n (w.clients n)
  gone : ∀ left ∈ w.gone, Dismissed M left.1 left.2

theorem Consistent.start {first : Worker M} (h : Start first) : Consistent first first := by
  have ordered := EventLoop.Ordered.start h.loop
  have none := h.loop.2
  refine ⟨ordered, by rw [h.loop.1, List.length_replicate], h.server, by simp [none], by simp [none], by simp [none],
    by simp [h.pending], by simp [h.pending], fun n fd busy => ?_, by simp [h.gone]⟩
  have listed := (ordered.registered fd).mpr ⟨n, busy⟩
  rw [none] at listed
  cases listed

/-- The first of the batch is taken off. -/
theorem Consistent.tail {first w : Worker M} (h : Consistent first w) {fd : Nat} {rest : List Nat} (next : w.pending = fd :: rest) :
    Consistent first { w with pending := rest } where
  ordered := h.ordered
  size := h.size
  server := h.server
  opened := h.opened
  apart := h.apart
  once := h.once
  distinct := (List.nodup_cons.mp (next ▸ h.distinct)).2
  ready := fun fd' there => h.ready fd' (by rw [next]; exact List.mem_cons_of_mem _ there)
  served := h.served
  gone := h.gone

/-- **The branch for the server socket** returns, and keeps everything in place. -/
theorem Consistent.acceptClient {first w : Worker M} (h : Consistent first w) {clientSocket : Nat}
    (unused : clientSocket ∉ w.loop.opened) (nonblocking added : Bool) :
    ∃ w', w.acceptClient clientSocket nonblocking added = .ok w' ∧ Consistent first w' := by
  have ordered := h.ordered.accept unused nonblocking added
  have unregistered : clientSocket ∉ w.loop.registered := fun listed => unused (h.ordered.opened _ listed)
  have foreign : clientSocket ∉ first.loop.opened := fun listed => unused ((h.opened _).mpr (Or.inl listed))
  rcases EventLoop.accept_cases w.loop clientSocket nonblocking added with ⟨n, free, placed⟩ | ⟨full, closed⟩
  · rw [placed] at ordered
    have fits : n < w.loop.connections.length := by
      have found : findFreeConnection w.loop.connections = some n := by
        split at free
        · exact free
        · cases free
      exact (EventLoop.findFreeConnection_some found).1
    refine ⟨_, by rw [Worker.acceptClient, free, placed]; rfl, ?_⟩
    constructor
    · exact ordered
    · simpa [EventLoop.initConnection, EventLoop.setBusy] using h.size
    · exact h.server
    · intro fd
      simp only [EventLoop.initConnection, EventLoop.setBusy, List.mem_cons, h.opened fd]
      tauto
    · intro fd listed there
      simp only [EventLoop.initConnection, EventLoop.setBusy, List.mem_cons] at there
      rcases there with rfl | there
      · exact foreign listed
      · exact h.apart fd listed there
    · exact List.nodup_cons.mpr ⟨unregistered, h.once⟩
    · exact h.distinct
    · exact fun fd there => (h.ready fd there).imp_right (List.mem_cons_of_mem _)
    · intro m fd busy
      rcases (EventLoop.busy_placed fits m fd).mp busy with ⟨rfl, -⟩ | ⟨other, busy'⟩
      · dsimp only
        rw [Function.update_self]
        exact ⟨[], .fresh, by simp⟩
      · dsimp only
        rw [Function.update_of_ne other]
        exact h.served m fd busy'
    · exact h.gone
  · rw [closed] at ordered
    refine ⟨_, by rw [Worker.acceptClient, full, closed], ?_⟩
    have kept : w.loop.registered.filter (· ≠ clientSocket) = w.loop.registered :=
      List.filter_eq_self.mpr fun fd listed => decide_eq_true fun same => unregistered (same ▸ listed)
    constructor
    · exact ordered
    · exact h.size
    · exact h.server
    · intro fd
      simp only [EventLoop.close, kept, List.mem_filter, List.mem_cons, decide_eq_true_eq]
      rw [← h.opened fd]
      constructor
      · rintro ⟨rfl | there, other⟩
        · exact absurd rfl other
        · exact there
      · exact fun there => ⟨Or.inr there, fun same => unused (same ▸ there)⟩
    · simpa only [EventLoop.close, kept] using h.apart
    · simpa only [EventLoop.close, kept] using h.once
    · exact h.distinct
    · simpa only [EventLoop.close, kept] using h.ready
    · exact h.served
    · exact h.gone

/-- **The branch for a client** returns, and keeps everything in place. -/
theorem Consistent.handleClient (all : M.Succeeds) {first w : Worker M} (h : Consistent first w) {socketFd : Nat}
    (listed : socketFd ∈ w.loop.registered) (handled : socketFd ∉ w.pending) (results : List Received) :
    ∃ w', w.handleClient socketFd results = .ok w' ∧ Consistent first w' := by
  obtain ⟨n, busy⟩ := (h.ordered.registered socketFd).mp listed
  obtain ⟨calls, alone, kept⟩ := h.served n socketFd busy
  have sound := alone.sound (all n) (@unwritten (M.platform n) w.state)
  obtain ⟨⟨call, connection⟩, s, run, -⟩ := ensures_processConnection_sound (all n).recording results sound (@unwritten (M.platform n) w.state)
  have longer := alone.snoc (all n) kept rfl run
  have handled' : w.handleClient socketFd results = .ok { w with
      loop := w.loop.ready socketFd call.kept, state := Prod.fst s
      clients := Function.update w.clients n ⟨connection, (w.clients n).received ++ [results], (w.clients n).sent ++ written s⟩
      gone := if call.kept then w.gone
        else w.gone ++ [(n, ⟨connection, (w.clients n).received ++ [results], (w.clients n).sent ++ written s⟩)] } := by
    rw [Worker.handleClient, h.ordered.findConnection busy]
    dsimp only
    rw [run]
  refine ⟨_, handled', ?_⟩
  have ordered := h.ordered.ready listed call.kept
  have busy_iff := h.ordered.busy_ready busy call.kept
  have registered : ∀ fd, fd ∈ (w.loop.ready socketFd call.kept).registered ↔
      fd ∈ w.loop.registered ∧ (call.kept = true ∨ fd ≠ socketFd) := by
    intro fd
    rw [h.ordered.ready_eq busy]
    split
    · rename_i stays
      simp [EventLoop.initConnection, EventLoop.setBusy, stays]
    · rename_i leaves
      simp [EventLoop.close, EventLoop.setBusy, leaves]
  have opened : ∀ fd, fd ∈ (w.loop.ready socketFd call.kept).opened ↔
      fd ∈ w.loop.opened ∧ (call.kept = true ∨ fd ≠ socketFd) := by
    intro fd
    rw [h.ordered.ready_eq busy]
    split
    · rename_i stays
      simp [EventLoop.initConnection, EventLoop.setBusy, stays]
    · rename_i leaves
      simp [EventLoop.close, EventLoop.setBusy, leaves]
  have foreign : socketFd ∉ first.loop.opened := fun there => h.apart _ there listed
  constructor
  · exact ordered
  · dsimp only
    rw [h.ordered.ready_eq busy]
    split
    · simpa [EventLoop.initConnection, EventLoop.setBusy] using h.size
    · simpa [EventLoop.close, EventLoop.setBusy] using h.size
  · exact h.server
  · intro fd
    dsimp only
    rw [opened, registered, h.opened]
    constructor
    · rintro ⟨there | there, alive⟩
      · exact Or.inl there
      · exact Or.inr ⟨there, alive⟩
    · rintro (there | ⟨there, alive⟩)
      · exact ⟨Or.inl there, Or.inr fun same => foreign (same ▸ there)⟩
      · exact ⟨Or.inr there, alive⟩
  · intro fd there
    rw [registered]
    exact fun both => h.apart fd there both.1
  · dsimp only
    rw [h.ordered.ready_eq busy]
    split
    · exact h.once
    · exact h.once.filter _
  · exact h.distinct
  · intro fd there
    rw [registered]
    exact (h.ready fd there).imp_right fun there' => ⟨there', Or.inr fun same => handled (same ▸ there)⟩
  · intro m fd busy'
    rw [busy_iff] at busy'
    dsimp only
    by_cases same : m = n
    · subst same
      rw [Function.update_self]
      refine ⟨calls ++ [call], longer, ?_⟩
      split at busy'
      · rename_i stays
        intro c there
        rcases List.mem_append.mp there with before | last
        · exact kept c before
        · rw [List.mem_singleton.mp last]
          exact stays
      · exact absurd rfl busy'.1
    · rw [Function.update_of_ne same]
      split at busy'
      · exact h.served m fd busy'
      · exact h.served m fd busy'.2
  · intro left there
    dsimp only at there
    split at there
    · exact h.gone left there
    · rename_i leaves
      rcases List.mem_append.mp there with there | there
      · exact h.gone left there
      · rw [List.mem_singleton.mp there]
        exact ⟨calls, call, longer, kept, Bool.eq_false_iff.mpr leaves⟩

/-- **An event is handled**, whatever the kernel answers. -/
theorem Consistent.handle (all : M.Succeeds) {first w : Worker M} (h : Consistent first w) {answer : Answer}
    (unused : ∀ fd, answer.accepted = some fd → fd ∉ w.loop.opened) : ∃ w', w.handle answer = .ok w' ∧ Consistent first w' := by
  unfold Worker.handle
  cases next : w.pending with
  | nil => exact ⟨w, rfl, h⟩
  | cons fd rest =>
    have tail := h.tail next
    dsimp only
    by_cases server : fd = w.serverSocket
    · rw [if_pos server]
      cases accepted : answer.accepted with
      | none => exact ⟨_, rfl, tail⟩
      | some clientSocket => exact tail.acceptClient (unused _ accepted) _ _
    · rw [if_neg server]
      refine tail.handleClient all ?_ ?_ _
      · exact (h.ready fd (by rw [next]; exact List.mem_cons_self)).resolve_left server
      · exact (List.nodup_cons.mp (next ▸ h.distinct)).1

theorem Consistent.step (all : M.Succeeds) {first w w' : Worker M} (h : Consistent first w) (step : Step w w') : Consistent first w' := by
  cases step with
  | wait idle few distinct ready => exact { h with distinct, ready }
  | handle unused run =>
    obtain ⟨w'', run', consistent⟩ := h.handle all unused
    rw [run] at run'
    cases run'
    exact consistent

theorem Consistent.of_reached (all : M.Succeeds) {first w : Worker M} (start : Start first) (h : Reached (· = first) Step w) :
    Consistent first w :=
  h.invariant (fun _ same => by rw [same]; exact .start start) fun _ _ consistent step => consistent.step all step

/-- **Every client is served as if it was alone.** However the events of all clients are interleaved and batched,
a client that is there is found by its descriptor, and it and every client that is gone sent and were sent what they
would be without the others: the requests are those of its own octets, and the replies are to its own requests.
The literals of log lines are taken to land. -/
theorem served_alone (all : M.Succeeds) {first w : Worker M} (start : Start first) (h : Reached (· = first) Step w) :
    (∀ fd ∈ w.loop.registered, ∃ n, findConnection w.loop.connections fd = some n ∧ Served M n (w.clients n)) ∧
      ∀ left ∈ w.gone, Dismissed M left.1 left.2 := by
  have consistent := Consistent.of_reached all start h
  refine ⟨fun fd listed => ?_, consistent.gone⟩
  obtain ⟨n, busy⟩ := (consistent.ordered.registered fd).mp listed
  exact ⟨n, consistent.ordered.findConnection busy, consistent.served n fd busy⟩

/-- **The worker goes on.** In every state, whatever is pending and whatever the kernel answers, the next event is
handled without a fault, up to the literals of log lines, which are taken to land; no descriptor is open that was
not at first, but for those of the clients; and a client is turned away exactly when there are as many clients as
slots. -/
theorem handled_safely (all : M.Succeeds) {first w : Worker M} (start : Start first) (h : Reached (· = first) Step w) :
    (∀ answer : Answer, (∀ fd, answer.accepted = some fd → fd ∉ w.loop.opened) → ∃ w', w.handle answer = .ok w') ∧
      (∀ fd, fd ∈ w.loop.opened ↔ fd ∈ first.loop.opened ∨ fd ∈ w.loop.registered) ∧ w.loop.registered.Nodup ∧
      ∀ clientSocket, clientSocket ∉ w.loop.opened →
        (clientSocket ∈ (w.loop.accept clientSocket true true).registered ↔ w.loop.registered.length < maxConnections) := by
  have consistent := Consistent.of_reached all start h
  refine ⟨fun answer unused => ?_, consistent.opened, consistent.once, fun clientSocket unused => ?_⟩
  · obtain ⟨w', run, -⟩ := consistent.handle all unused
    exact ⟨w', run⟩
  · rw [← consistent.size, ← consistent.ordered.findFreeConnection_isSome consistent.once]
    rcases EventLoop.accept_cases w.loop clientSocket true true with ⟨n, free, placed⟩ | ⟨full, closed⟩
    · rw [Bool.and_self, if_pos rfl] at free
      rw [placed, free]
      simp [EventLoop.initConnection, EventLoop.setBusy]
    · rw [Bool.and_self, if_pos rfl] at full
      rw [closed, full]
      simp [EventLoop.close]

/-- A machine whose memory never runs out and whose kernel takes everything. -/
def ampleMachine : Machine :=
  ⟨Unit, fun _ _ _ => (true, ()), fun _ _ => (), fun _ _ buffers => (some buffers.flatten.length, ())⟩

theorem ampleMachine_succeeds : ampleMachine.Succeeds := fun _ _ _ => rfl

/-- A worker with an empty pool. -/
def entered : Worker ampleMachine :=
  { loop := EventLoop.entered, serverSocket := 3, clients := fun _ => { connection := .fresh }, state := () }

theorem start_entered : Start entered := ⟨⟨rfl, rfl⟩, by decide, rfl, rfl⟩

/-- A client was accepted, and something came from it. -/
def oneReady : Worker ampleMachine :=
  { entered with
    loop := EventLoop.entered.accept 5 true true, pending := [5]
    clients := Function.update entered.clients 0 { connection := .fresh } }

theorem reached_oneReady : Reached (· = entered) Step oneReady := by
  have batch : Step entered { entered with pending := [3] } := .wait rfl (by decide) (by simp) (by simp [entered])
  have accepted : Step { entered with pending := [3] } { oneReady with pending := [] } :=
    @Step.handle _ _ _ { accepted := some 5 } (by simp [entered, EventLoop.entered]) rfl
  have ready : Step { oneReady with pending := [] } oneReady :=
    .wait rfl (by decide) (by simp) fun fd there => Or.inr (by rw [List.mem_singleton.mp there]; decide)
  exact .step (.step (.step (.first rfl) batch) accepted) ready

theorem served_alone_one_ready :
    (∀ fd ∈ oneReady.loop.registered, ∃ n, findConnection oneReady.loop.connections fd = some n ∧
        Served ampleMachine n (oneReady.clients n)) ∧
      ∀ left ∈ oneReady.gone, Dismissed ampleMachine left.1 left.2 :=
  served_alone ampleMachine_succeeds start_entered reached_oneReady

theorem handled_safely_one_ready :
    (∀ answer : Answer, (∀ fd, answer.accepted = some fd → fd ∉ oneReady.loop.opened) → ∃ w', oneReady.handle answer = .ok w') ∧
      (∀ fd, fd ∈ oneReady.loop.opened ↔ fd ∈ entered.loop.opened ∨ fd ∈ oneReady.loop.registered) ∧
      oneReady.loop.registered.Nodup ∧
      ∀ clientSocket, clientSocket ∉ oneReady.loop.opened →
        (clientSocket ∈ (oneReady.loop.accept clientSocket true true).registered ↔
          oneReady.loop.registered.length < maxConnections) :=
  handled_safely ampleMachine_succeeds start_entered reached_oneReady

end Worker

end Cpptrw.Main
