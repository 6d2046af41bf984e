import Cpptrw.Lib.Reach
import Mathlib.Logic.Function.Basic

/-!
# The event loop and its pool of connections (`main.c`, `sl_net.c`)

A slot is its descriptor and its `is_busy`; a slot that was closed keeps its
descriptor, and a slot that was never used has descriptor `0`. What the parser
and the request in a slot are does not matter here. The kernel's part is the
list of descriptors that are open in the process and the list of those that
`epoll` was given for clients; to close a descriptor takes it off both. `owner`
is a history: the slot that `sl_net_init_connection` was last called on with a
descriptor.
-/

namespace Cpptrw.Main

open Lib

/-- The pool's part of `sl_net_connection`. -/
structure Slot where
  socketFd : Nat := 0
  isBusy : Bool := false
  deriving DecidableEq, Repr

/-- `SL_MAIN_MAX_CONNECTIONS`. -/
def maxConnections : Nat := 1024

/-- `sl_net_find_connection`; the result is the index of the slot. -/
def findConnection (connections : List Slot) (socketFd : Nat) : Option Nat :=
  connections.findIdx? fun slot => slot.socketFd = socketFd

/-- `sl_net_find_free_connection`. -/
def findFreeConnection (connections : List Slot) : Option Nat := connections.findIdx? fun slot => !slot.isBusy

/-- The state of `sl_main_event_loop`, with the kernel's lists and the history. -/
structure EventLoop where
  connections : List Slot
  opened : List Nat
  registered : List Nat := []
  owner : Nat → Option Nat := fun _ => none

namespace EventLoop

/-- `sl_net_init_connection`, as far as the pool goes. -/
def initConnection (loop : EventLoop) (n socketFd : Nat) : EventLoop :=
  { loop with
    connections := loop.connections.set n { socketFd, isBusy := false }
    owner := Function.update loop.owner socketFd (some n) }

/-- `connection->is_busy = busy`. -/
def setBusy (loop : EventLoop) (n : Nat) (busy : Bool) : EventLoop :=
  { loop with connections := loop.connections.modify n fun slot => { slot with isBusy := busy } }

/-- `close`, which also takes the descriptor off the `epoll` instance. -/
def close (loop : EventLoop) (socketFd : Nat) : EventLoop :=
  { loop with
    opened := loop.opened.filter (· ≠ socketFd)
    registered := loop.registered.filter (· ≠ socketFd) }

/-- The branch for the server socket, when `accept` has returned a descriptor;
`nonblocking` and `added` are whether `fcntl` and `epoll_ctl` succeed. -/
def accept (loop : EventLoop) (clientSocket : Nat) (nonblocking added : Bool) : EventLoop :=
  let loop := { loop with opened := clientSocket :: loop.opened }
  if nonblocking then
    match findFreeConnection loop.connections with
    | none => loop.close clientSocket
    | some n =>
      if added then
        let loop := { loop with registered := clientSocket :: loop.registered }
        (loop.initConnection n clientSocket).setBusy n true
      else loop.close clientSocket
  else loop.close clientSocket

/-- The branch for a client; `kept` is whether `sl_main_process_connection`
returns `1`, which it does behind another `sl_net_init_connection`. -/
def ready (loop : EventLoop) (socketFd : Nat) (kept : Bool) : EventLoop :=
  match findConnection loop.connections socketFd with
  | none => loop.close socketFd
  | some n =>
    if kept then
      match loop.connections[n]? with
      | none => loop
      | some slot => (loop.initConnection n slot.socketFd).setBusy n true
    else (loop.setBusy n false).close socketFd

/-- What can happen next: `accept` returns a descriptor that is not open, or a
registered client is ready. -/
inductive Step : EventLoop → EventLoop → Prop
  | accept (loop : EventLoop) {clientSocket : Nat} (unused : clientSocket ∉ loop.opened) (nonblocking added : Bool) :
      Step loop (loop.accept clientSocket nonblocking added)
  | ready (loop : EventLoop) {socketFd : Nat} (registered : socketFd ∈ loop.registered) (kept : Bool) :
      Step loop (loop.ready socketFd kept)

/-- The loop is entered with an empty pool; any descriptors may be open. -/
def Start (loop : EventLoop) : Prop :=
  loop.connections = List.replicate maxConnections {} ∧ loop.registered = []

/-! ## The invariant -/

/-- The slot with this index, if it is busy. -/
def Busy (loop : EventLoop) (n socketFd : Nat) : Prop := loop.connections[n]? = some ⟨socketFd, true⟩

/-- **No slot before a busy one has its descriptor**, closed or not. -/
structure Ordered (loop : EventLoop) : Prop where
  first : ∀ n socketFd, loop.Busy n socketFd → ∀ i < n, ∀ slot, loop.connections[i]? = some slot → slot.socketFd ≠ socketFd
  registered : ∀ socketFd, socketFd ∈ loop.registered ↔ ∃ n, loop.Busy n socketFd
  opened : ∀ socketFd ∈ loop.registered, socketFd ∈ loop.opened
  owner : ∀ n socketFd, loop.Busy n socketFd → loop.owner socketFd = some n

variable {loop : EventLoop} {n socketFd : Nat}

theorem Busy.lt (h : loop.Busy n socketFd) : n < loop.connections.length :=
  (List.getElem?_eq_some_iff.mp h).1

/-- The first slot with the descriptor is the busy one. -/
theorem Ordered.findConnection (h : loop.Ordered) (busy : loop.Busy n socketFd) :
    findConnection loop.connections socketFd = some n := by
  obtain ⟨fits, here⟩ := List.getElem?_eq_some_iff.mp busy
  rw [Main.findConnection, List.findIdx?_eq_some_iff_getElem]
  refine ⟨fits, by simp [here], fun i before => ?_⟩
  have other := h.first n socketFd busy i before _ (List.getElem?_eq_getElem (by omega))
  simpa using other

/-- Two busy slots have two descriptors. -/
theorem Ordered.distinct (h : loop.Ordered) {m : Nat} (busy : loop.Busy n socketFd) (busy' : loop.Busy m socketFd) : n = m := by
  have found := h.findConnection busy
  rw [h.findConnection busy'] at found
  exact (Option.some.inj found).symm

/-- Slots before the first free one are busy. -/
theorem findFreeConnection_some {connections : List Slot} (h : findFreeConnection connections = some n) :
    ∃ fits : n < connections.length, connections[n].isBusy = false ∧
      ∀ i < n, ∀ slot, connections[i]? = some slot → slot.isBusy = true := by
  rw [findFreeConnection, List.findIdx?_eq_some_iff_getElem] at h
  obtain ⟨fits, free, before⟩ := h
  refine ⟨fits, by simpa using free, fun i less slot here => ?_⟩
  obtain ⟨fits', same⟩ := List.getElem?_eq_some_iff.mp here
  have busy := before i less
  rw [same] at busy
  simpa using busy

/-! ## Steps -/

/-- The slots behind `sl_net_init_connection` and `is_busy = true`. -/
theorem getElem?_placed (loop : EventLoop) (fits : n < loop.connections.length) (socketFd i : Nat) :
    ((loop.initConnection n socketFd).setBusy n true).connections[i]? =
      if i = n then some ⟨socketFd, true⟩ else loop.connections[i]? := by
  simp only [setBusy, initConnection, List.getElem?_modify, List.getElem?_set]
  by_cases same : i = n
  · simp [same, fits]
  · simp [same, Ne.symm same]

/-- The slots behind `is_busy = false`. -/
theorem getElem?_released (loop : EventLoop) (busy : loop.Busy n socketFd) (i : Nat) :
    (loop.setBusy n false).connections[i]? = if i = n then some ⟨socketFd, false⟩ else loop.connections[i]? := by
  simp only [setBusy, List.getElem?_modify]
  by_cases same : i = n
  · have here : loop.connections[n]? = some ⟨socketFd, true⟩ := busy
    simp [same, here]
  · simp [same, Ne.symm same]

/-- A descriptor is put into a slot, where no slot before has it and no other busy slot does. -/
theorem Ordered.place (h : loop.Ordered) (fits : n < loop.connections.length)
    (before : ∀ i < n, ∀ slot, loop.connections[i]? = some slot → slot.socketFd ≠ socketFd)
    (others : ∀ m, m ≠ n → ¬loop.Busy m socketFd) (own : ∀ socketFd', loop.Busy n socketFd' → socketFd' = socketFd)
    {opened registered : List Nat} (listed : ∀ fd, fd ∈ registered ↔ fd = socketFd ∨ fd ∈ loop.registered)
    (wide : ∀ fd ∈ registered, fd ∈ opened) :
    (({ loop with opened, registered } : EventLoop).initConnection n socketFd |>.setBusy n true).Ordered := by
  have slots := getElem?_placed { loop with opened, registered } fits socketFd
  have busy_iff : ∀ m fd, (({ loop with opened, registered } : EventLoop).initConnection n socketFd |>.setBusy n true).Busy m fd ↔
      m = n ∧ fd = socketFd ∨ m ≠ n ∧ loop.Busy m fd := by
    intro m fd
    rw [Busy, slots]
    by_cases same : m = n
    · simp [same, eq_comm]
    · simp [same, Busy]
  constructor
  · intro m fd busy i less slot here
    rw [slots] at here
    rcases (busy_iff m fd).mp busy with ⟨rfl, rfl⟩ | ⟨other, busy'⟩
    · rw [if_neg (by omega)] at here
      exact before i less slot here
    · split at here
      · cases here
        intro same
        dsimp only at same
        exact others m other (same ▸ busy')
      · exact h.first m fd busy' i less slot here
  · intro fd
    rw [show (({ loop with opened, registered } : EventLoop).initConnection n socketFd |>.setBusy n true).registered =
      registered from rfl, listed, h.registered]
    constructor
    · intro there
      rcases there with rfl | ⟨m, busy⟩
      · exact ⟨n, (busy_iff n fd).mpr (Or.inl ⟨rfl, rfl⟩)⟩
      · by_cases same : m = n
        · subst same
          exact ⟨m, (busy_iff m fd).mpr (Or.inl ⟨rfl, own fd busy⟩)⟩
        · exact ⟨m, (busy_iff m fd).mpr (Or.inr ⟨same, busy⟩)⟩
    · intro ⟨m, busy⟩
      rcases (busy_iff m fd).mp busy with ⟨-, same⟩ | ⟨-, busy'⟩
      · exact Or.inl same
      · exact Or.inr ⟨m, busy'⟩
  · exact wide
  · intro m fd busy
    rcases (busy_iff m fd).mp busy with ⟨rfl, rfl⟩ | ⟨other, busy'⟩
    · exact Function.update_self ..
    · have different : fd ≠ socketFd := fun same => others m other (same ▸ busy')
      exact (Function.update_of_ne different ..).trans (h.owner m fd busy')

/-- A busy slot is released, and its descriptor closed. -/
theorem Ordered.release (h : loop.Ordered) (busy : loop.Busy n socketFd) :
    ((loop.setBusy n false).close socketFd).Ordered := by
  have slots := getElem?_released loop busy
  have busy_iff : ∀ m fd, ((loop.setBusy n false).close socketFd).Busy m fd ↔ m ≠ n ∧ loop.Busy m fd := by
    intro m fd
    rw [Busy, show ((loop.setBusy n false).close socketFd).connections = (loop.setBusy n false).connections from rfl, slots]
    by_cases same : m = n
    · simp [same]
    · simp [same, Busy]
  constructor
  · intro m fd busy' i less slot here
    obtain ⟨other, busy'⟩ := (busy_iff m fd).mp busy'
    rw [show ((loop.setBusy n false).close socketFd).connections = (loop.setBusy n false).connections from rfl, slots] at here
    split at here
    · cases here
      intro same
      dsimp only at same
      exact other (h.distinct (same ▸ busy') busy)
    · exact h.first m fd busy' i less slot here
  · intro fd
    have listed : fd ∈ ((loop.setBusy n false).close socketFd).registered ↔ fd ∈ loop.registered ∧ fd ≠ socketFd := by
      simp [close, setBusy]
    rw [listed, h.registered]
    constructor
    · intro ⟨⟨m, busy'⟩, different⟩
      refine ⟨m, (busy_iff m fd).mpr ⟨fun same => different ?_, busy'⟩⟩
      subst same
      have same := Option.some.inj (busy'.symm.trans busy)
      exact congrArg Slot.socketFd same
    · intro ⟨m, busy'⟩
      obtain ⟨other, busy'⟩ := (busy_iff m fd).mp busy'
      exact ⟨⟨m, busy'⟩, fun same => other (h.distinct (same ▸ busy') busy)⟩
  · intro fd listed
    simp only [close, setBusy, List.mem_filter] at listed ⊢
    exact ⟨h.opened fd listed.1, listed.2⟩
  · intro m fd busy'
    exact h.owner m fd ((busy_iff m fd).mp busy').2

/-- A descriptor that was accepted only to be closed again. -/
theorem Ordered.refuse (h : loop.Ordered) (unused : socketFd ∉ loop.opened) :
    (({ loop with opened := socketFd :: loop.opened } : EventLoop).close socketFd).Ordered := by
  have kept : (({ loop with opened := socketFd :: loop.opened } : EventLoop).close socketFd).registered = loop.registered := by
    refine List.filter_eq_self.mpr fun fd listed => decide_eq_true fun same => unused ?_
    exact same ▸ h.opened fd listed
  constructor
  · exact h.first
  · intro fd
    rw [kept]
    exact h.registered fd
  · intro fd listed
    rw [kept] at listed
    have there := h.opened fd listed
    have different : fd ≠ socketFd := fun same => unused (same ▸ there)
    simp [close, there, different]
  · exact h.owner

theorem Ordered.start (h : loop.Start) : loop.Ordered := by
  have idle : ∀ m fd, ¬loop.Busy m fd := by
    intro m fd busy
    rw [Busy, h.1, List.getElem?_replicate] at busy
    split at busy <;> cases busy
  refine ⟨fun m fd busy => absurd busy (idle m fd), fun fd => ?_, ?_, fun m fd busy => absurd busy (idle m fd)⟩
  · rw [h.2]
    simp [idle]
  · rw [h.2]
    exact fun fd none => absurd none List.not_mem_nil

theorem Ordered.accept (h : loop.Ordered) {clientSocket : Nat} (unused : clientSocket ∉ loop.opened)
    (nonblocking added : Bool) : (loop.accept clientSocket nonblocking added).Ordered := by
  have refused := h.refuse unused
  unfold EventLoop.accept
  dsimp only
  split
  · split
    · exact refused
    · rename_i n free
      split
      · obtain ⟨fits, idle, before⟩ := findFreeConnection_some free
        have taken : ∀ m, ¬loop.Busy m clientSocket := by
          intro m busy
          exact unused (h.opened _ ((h.registered _).mpr ⟨m, busy⟩))
        refine h.place fits ?_ (fun m _ => taken m) ?_ (by simp) ?_
        · intro i less slot here same
          have busy := before i less slot here
          exact taken i (by rw [Busy, here, ← same, ← busy])
        · intro fd busy
          rw [Busy, List.getElem?_eq_getElem fits] at busy
          rw [Option.some.inj busy] at idle
          cases idle
        · intro fd listed
          rcases List.mem_cons.mp listed with rfl | listed
          · exact List.mem_cons_self
          · exact List.mem_cons_of_mem _ (h.opened fd listed)
      · exact refused
  · exact refused

theorem Ordered.ready (h : loop.Ordered) (registered : socketFd ∈ loop.registered) (kept : Bool) :
    (loop.ready socketFd kept).Ordered := by
  obtain ⟨n, busy⟩ := (h.registered socketFd).mp registered
  have here : loop.connections[n]? = some ⟨socketFd, true⟩ := busy
  unfold EventLoop.ready
  rw [h.findConnection busy]
  dsimp only
  split
  · rw [here]
    refine h.place busy.lt (h.first n socketFd busy) (fun m other busy' => other (h.distinct busy' busy)) ?_ ?_ h.opened
    · intro fd busy'
      exact congrArg Slot.socketFd (Option.some.inj (busy'.symm.trans busy))
    · intro fd
      exact ⟨Or.inr, fun there => there.elim (fun same => same ▸ registered) id⟩
  · exact h.release busy

/-- **A lookup finds the connection.** In every state of every run the
descriptors registered for clients are those of the busy slots, no two busy
slots have one descriptor, and the lookup of a registered descriptor finds the
busy slot that was last initialised for it. -/
theorem lookup_finds_owner {loop : EventLoop} (h : Reached Start Step loop) :
    (∀ fd, fd ∈ loop.registered ↔ ∃ n, loop.Busy n fd) ∧
    (∀ n m fd, loop.Busy n fd → loop.Busy m fd → n = m) ∧
    ∀ fd ∈ loop.registered, ∃ n, Main.findConnection loop.connections fd = some n ∧ loop.Busy n fd ∧ loop.owner fd = some n := by
  have ordered : loop.Ordered := by
    refine h.invariant (fun _ => Ordered.start) fun _ _ ordered step => ?_
    cases step with
    | accept unused nonblocking added => exact ordered.accept unused nonblocking added
    | ready registered kept => exact ordered.ready registered kept
  refine ⟨ordered.registered, fun n m fd => ordered.distinct, fun fd listed => ?_⟩
  obtain ⟨n, busy⟩ := (ordered.registered fd).mp listed
  exact ⟨n, ordered.findConnection busy, busy, ordered.owner n fd busy⟩

/-- An empty pool; the standard streams, the server socket and the `epoll` instance are open. -/
def entered : EventLoop := { connections := List.replicate maxConnections {}, opened := [0, 1, 2, 3, 4] }

/-- Two clients, the first of which is gone again. -/
def oneGone : EventLoop := ((entered.accept 5 true true).accept 6 true true).ready 5 false

theorem reached_oneGone : Reached Start Step oneGone := by
  have first : Reached Start Step (entered.accept 5 true true) :=
    .step (.first ⟨rfl, rfl⟩) (.accept entered (by decide) true true)
  have second : Reached Start Step ((entered.accept 5 true true).accept 6 true true) :=
    .step first (.accept _ (by decide) true true)
  exact .step second (.ready _ (by decide) false)

theorem lookup_finds_owner_one_gone :
    (∀ fd, fd ∈ oneGone.registered ↔ ∃ n, oneGone.Busy n fd) ∧
    (∀ n m fd, oneGone.Busy n fd → oneGone.Busy m fd → n = m) ∧
    ∀ fd ∈ oneGone.registered, ∃ n, Main.findConnection oneGone.connections fd = some n ∧ oneGone.Busy n fd ∧
      oneGone.owner fd = some n :=
  lookup_finds_owner reached_oneGone

end EventLoop

end Cpptrw.Main
