import Cpptrw.Leftover.Connection
import Cpptrw.Leftover.ParserCarvings

/-!
# What a session carves

The parameters that the parser leaves go into a table as strings, and a request
that is complete is answered; all of it is taken from the arena of the
connection. So the arena is, behind every session, one that calls and rewinds
lead to, and the next session begins with it.
-/

namespace Cpptrw.Leftover

open Lib Arena Fcgi Hashtable
open Text hiding SlString
open Text.Sharing (SlString)

variable {S : Setting}

theorem Use.size_buckets (size : Nat) : (Use.buckets size).size = wrap64 (sizeofPointer * pow2Size size) := by
  rw [Use.size]

/-- The table's smallest size is a power of two, as `sl_hashtable_init` has made it. -/
def Rounded (t : SlHashtable) : Prop := ∃ size, t.preallocate = pow2Size size

theorem rounded_init (preallocate : Nat) (resize : Bool) : Rounded (.init preallocate resize) := ⟨preallocate, rfl⟩

theorem brief_init : Brief {} := show 0 < 2 ^ 16 by decide

/-- What is kept of a connection. -/
structure Carvable (connection : Connection) : Prop where
  brief : Brief connection.parser
  rounded : Rounded connection.request.parameters

namespace Traces

variable {t : SlHashtable}

/-! ## The hash table -/

theorem areKeysEqual (keyA keyB : Nat) : Traces (areKeysEqual S keyA keyB) fun _ => True := by
  apply (loadString _).bind
  intro a _
  apply (loadString _).bind
  intro b _
  split
  · exact .pure trivial
  · apply (load _ _ _).bind
    intro octetsA _
    apply (load _ _ _).bind
    intro octetsB _
    exact .pure trivial

theorem computeHash (key : Nat) : Traces (Leftover.computeHash S key) fun _ => True := by
  apply (loadString _).bind
  intro string _
  apply (load _ _ _).bind
  intro octets _
  exact .pure trivial

theorem createBucket (mallocs : S.Mallocs) (hash key value : Nat) : Traces (createBucket S hash key value) fun _ => True := by
  apply (allocate mallocs .bucket).bind
  intro bucket _
  split
  · exact .pure trivial
  · apply (store _ _ _).bind
    intro _ _
    exact .pure trivial

/-- An array for any number of chains, if it is one that there are calls for. -/
theorem createSlots {slots : Nat} (call : Traces (Leftover.allocate S .buckets (wrap64 (sizeofPointer * slots))) fun _ => True) :
    Traces (createSlots S slots) fun _ => True := by
  apply call.bind
  intro buckets _
  split
  · exact .pure trivial
  · apply (store _ _ _).bind
    intro _ _
    exact .pure trivial

theorem createPow2Slots (mallocs : S.Mallocs) (size : Nat) : Traces (Leftover.createSlots S (pow2Size size)) fun _ => True := by
  apply createSlots
  rw [← Use.size_buckets]
  exact allocate mallocs (.buckets size)

theorem lastNode (node : Nat) : Traces (lastNode S node) fun _ => True := by
  apply loop
  intro node
  apply (load64 _ _).bind
  intro next _
  exact .pure trivial

theorem moveNode (mallocs : S.Mallocs) (newBuckets newSize node : Nat) :
    Traces (moveNode S newBuckets newSize node) fun _ => True := by
  apply (load64 _ _).bind
  intro hash _
  apply (load64 _ _).bind
  intro key _
  apply (load64 _ _).bind
  intro value _
  apply (load64 _ _).bind
  intro newBucket _
  have created (node : Nat) (offset : Nat) :
      Traces (Leftover.createBucket S hash key value >>= fun bucket =>
        store64 S node offset bucket >>= fun _ => Pure.pure (decide (bucket ≠ 0))) fun _ => True := by
    apply (createBucket mallocs _ _ _).bind
    intro bucket _
    apply (store _ _ _).bind
    intro _ _
    exact .pure trivial
  split
  · exact created _ _
  · apply (lastNode _).bind
    intro newNode _
    exact created _ _

theorem moveChains (mallocs : S.Mallocs) (buckets newBuckets newSize : Nat) (slots : List Nat) :
    ∀ wasted, Traces (moveChains S buckets newBuckets newSize slots wasted) fun _ => True := by
  have pass : ∀ r, Traces (movePass S newBuckets newSize r) fun _ => True := by
    intro (node, wasted)
    unfold movePass
    dsimp only
    split
    · exact .pure trivial
    · apply (moveNode mallocs _ _ _).bind
      intro moved _
      split
      · apply (load64 _ _).bind
        intro next _
        exact .pure trivial
      · exact .pure trivial
  induction slots with
  | nil => exact fun _ => .pure trivial
  | cons n rest ih =>
    intro wasted
    apply (load64 _ _).bind
    intro bucket _
    apply (loop pass _ _).bind
    intro (moved, wasted) _
    dsimp only
    split
    · exact ih wasted
    · exact .pure trivial

theorem findPass (hash key : Nat) : ∀ r, Traces (findPass S hash key r) fun _ => True := by
  intro (node, last)
  unfold Leftover.findPass
  dsimp only
  split
  · exact .pure trivial
  · have equal : Traces (isNode S hash key node) fun _ => True := by
      apply (load64 _ _).bind
      intro nodeHash _
      split
      · exact .pure trivial
      · apply (load64 _ _).bind
        intro nodeKey _
        exact areKeysEqual _ _
    apply equal.bind
    intro equal _
    split
    · exact .pure trivial
    · apply (load64 _ _).bind
      intro next _
      exact .pure trivial

/-- A new array has the rounded size, or the table's smallest. -/
theorem provide (mallocs : S.Mallocs) (rounded : Rounded t) : Traces (t.provide S) fun r => Rounded r.2 := by
  unfold SlHashtable.provide
  split
  · have slots : Traces (Leftover.createSlots S (if pow2Size t.preallocate < t.preallocate then t.preallocate else pow2Size t.preallocate))
        fun _ => True := by
      obtain ⟨size, same⟩ := rounded
      split
      · exact same ▸ createPow2Slots mallocs size
      · exact createPow2Slots mallocs t.preallocate
    apply slots.bind
    intro buckets _
    split
    · exact .pure rounded
    · exact .pure rounded
  · exact .pure rounded

theorem grow (mallocs : S.Mallocs) (rounded : Rounded t) : Traces (t.grow S) fun r => Rounded r.2 := by
  unfold SlHashtable.grow
  dsimp only
  split
  · unfold SlHashtable.resizeTo
    dsimp only
    split
    · exact .pure rounded
    · apply (createPow2Slots mallocs _).bind
      intro newBuckets _
      split
      · exact .pure rounded
      · apply (moveChains mallocs _ _ _ _ _).bind
        intro (moved, wasted) _
        dsimp only
        split
        · exact .pure rounded
        · exact .pure rounded
  · exact .pure rounded

theorem set (mallocs : S.Mallocs) (rounded : Rounded t) (key value : Nat) : Traces (t.set S key value) fun r => Rounded r.2 := by
  apply (provide mallocs rounded).bind
  intro (provided, t) rounded
  dsimp only
  split
  · apply (computeHash _).bind
    intro hash _
    apply (load64 _ _).bind
    intro bucket _
    split
    · apply (createBucket mallocs _ _ _).bind
      intro bucket _
      split
      · exact .pure rounded
      · apply (store _ _ _).bind
        intro _ _
        exact grow mallocs rounded
    · apply (loop (findPass hash key) _ _).bind
      intro (found, node) _
      dsimp only
      split
      · apply (store _ _ _).bind
        intro _ _
        apply (store _ _ _).bind
        intro _ _
        exact .pure rounded
      · apply (createBucket mallocs _ _ _).bind
        intro bucket _
        apply (store _ _ _).bind
        intro _ _
        split
        · exact .pure rounded
        · exact grow mallocs rounded
  · exact .pure rounded

/-! ## Requests -/

theorem appendParam (mallocs : S.Mallocs) {request : Request} (rounded : Rounded request.parameters) (parser : Parser) :
    Traces (request.appendParam S parser) fun request => Rounded request.parameters := by
  have string : ∀ parameter fields, Traces (Request.stringOfParam S parameter fields) fun _ => True := by
    intro parameter fields
    apply (load64 _ _).bind
    intro data _
    apply (load32 _ _).bind
    intro length _
    exact createFromBuffer mallocs _ _
  have pass : ∀ r : Nat × SlHashtable, Rounded r.2 → Traces (Request.appendPass S r) (LoopPass (fun r => Rounded r.2) Rounded) := by
    intro (parameter, t) rounded
    unfold Request.appendPass
    dsimp only
    split
    · exact .pure rounded
    · apply (string _ _).bind
      intro name _
      apply (string _ _).bind
      intro value _
      apply (set mallocs rounded _ _).bind
      intro (added, t) rounded
      apply (load64 _ _).bind
      intro next _
      exact .pure rounded
  apply (whileLoop pass _ _ rounded).bind
  intro parameters rounded
  exact .pure rounded

theorem appendStdin (mallocs : S.Mallocs) {request : Request} (rounded : Rounded request.parameters) (parser : Parser) :
    Traces (request.appendStdin S parser) fun request => Rounded request.parameters := by
  unfold Request.appendStdin
  split
  · exact .pure rounded
  · apply (appendWithBuffer mallocs _ _).bind
    intro appended _
    cases appended with
    | none => exact .pure rounded
    | some stdin => exact .pure rounded

theorem process (mallocs : S.Mallocs) {request : Request} (rounded : Rounded request.parameters) (parser : Parser) :
    Traces (request.process S parser) fun request => Rounded request.parameters := by
  have params := appendParam mallocs rounded parser
  have stdin := appendStdin mallocs rounded parser
  have done : ∀ state requestId flags, Traces (Pure.pure { request with state, requestId, flags } : Code Request)
      fun request => Rounded request.parameters := fun _ _ _ => .pure rounded
  unfold Request.process
  dsimp only
  split
  · exact done _ _ _
  · split
    · split <;> exact done _ _ _
    · split
      · split
        · exact done _ _ _
        · exact params
      · split
        · split
          · exact done _ _ _
          · exact stdin
        · exact done _ _ _
    · split
      · exact done _ _ _
      · split
        · exact done _ _ _
        · exact params
    · split
      · exact done _ _ _
      · split
        · exact done _ _ _
        · exact stdin
    · exact done _ _ _
    · exact .pure rounded

/-! ## Responses -/

theorem headerChains (mallocs : S.Mallocs) (buckets output : Nat) (slots : List Nat) :
    Traces (headerChains S buckets output slots) fun _ => True := by
  have pass : ∀ node, Traces (headerPass S output node) fun _ => True := by
    intro node
    unfold headerPass
    split
    · exact .pure trivial
    · apply (load64 _ _).bind
      intro key _
      apply (load64 _ _).bind
      intro value _
      apply (format mallocs _ _).bind
      intro header _
      split
      · exact .pure trivial
      · apply (loadString _).bind
        intro string _
        apply (appendTo mallocs _ _).bind
        intro appended _
        split
        · apply (load64 _ _).bind
          intro next _
          exact .pure trivial
        · exact .pure trivial
  induction slots with
  | nil => exact .pure trivial
  | cons n rest ih =>
    apply (load64 _ _).bind
    intro bucket _
    apply (loop pass _ _).bind
    intro complete _
    split
    · exact ih
    · exact .pure trivial

theorem responseProcess (mallocs : S.Mallocs) (response : Response) : Traces (response.process S) fun _ => True := by
  apply (allocate mallocs .string).bind
  intro output _
  split
  · exact .pure trivial
  · apply (storeString _ _).bind
    intro _ _
    apply (headerChains mallocs _ _ _).bind
    intro complete _
    split
    · apply (appendTo mallocs _ _).bind
      intro ended _
      split
      · apply (appendTo mallocs _ _).bind
        intro appended _
        exact .pure trivial
      · exact .pure trivial
    · exact .pure trivial

theorem sendResponse (mallocs : S.Mallocs) (request : Request) (buffer length : Nat) :
    Traces (sendResponse S request buffer length) fun _ => True := by
  have written : ∀ buffers, Traces (writev S buffers) fun _ => True :=
    fun buffers => of_same (fun _ => ⟨rfl, rfl, rfl, rfl⟩) fun _ _ _ => trivial
  apply (load _ _ _).bind
  intro octets _
  apply (written _).bind
  intro sent _
  cases sent with
  | none => exact .pure trivial
  | some bytesSent =>
    apply (logWriteFormat mallocs _ _).bind
    intro _ _
    exact .pure trivial

theorem requestExecute (mallocs : S.Mallocs) (request : Request) : Traces (requestExecute S request) fun _ => True := by
  have append : ∀ response : Response, Rounded response.headers →
      Traces (response.appendHeader S (S.frame + 8) (S.frame + 32)) fun _ => True := by
    intro response rounded
    apply (set mallocs rounded _ _).bind
    intro (appended, headers) _
    exact .pure trivial
  have output : ∀ (response : Response) source, Traces (response.appendOutput S source) fun _ => True := by
    intro response source
    apply (appendWithBuffer mallocs _ _).bind
    intro stdout _
    exact .pure trivial
  unfold Leftover.requestExecute
  apply (append _ (rounded_init _ _)).bind
  intro (appended, response) _
  dsimp only
  split
  · apply (output _ _).bind
    intro response _
    cases response with
    | none => exact .pure trivial
    | some response =>
      apply (responseProcess mallocs response).bind
      intro rawResponse _
      split
      · exact .pure trivial
      · apply (loadString _).bind
        intro string _
        exact sendResponse mallocs _ _ _
  · exact .pure trivial

/-! ## Connections -/

theorem initConnection (slot : Connection) : Traces (initConnection slot) Carvable := by
  have fresh : Carvable { slot with parser := {}, request := .init Main.paramsPreallocate } := ⟨brief_init, rounded_init _ _⟩
  intro w s calls here
  have sound := calls.sound
  unfold Leftover.initConnection restart
  rw [here.arena, here.heap]
  by_cases never : s.arena.first = none
  · -- there are no blocks, so the arena is as it was at first
    have empty : s.heap = [] := by
      cases blocks : s.heap with
      | nil => rfl
      | cons block rest =>
        have linked := sound.sound.chained.linked
        rw [blocks] at linked
        exact absurd never (@Linked.first_ne_none [] rest block _ linked)
    rw [if_pos never, empty]
    refine ⟨uncarved, .first rfl, ⟨rfl, rfl, rfl, rfl⟩, fun connection same => ?_⟩
    cases same
    exact fresh
  · obtain ⟨heap, result, -⟩ := sound.rewind
    rw [if_neg never, result]
    refine ⟨⟨s.arena, heap, []⟩, .step calls (.rewind s result), ⟨rfl, rfl, rfl, rfl⟩, fun connection same => ?_⟩
    cases same
    exact fresh

theorem layLocals : Traces (layLocals S) fun _ => True := by
  apply (store _ _ _).bind
  intro _ _
  apply (store _ _ _).bind
  intro _ _
  apply (storeString _ _).bind
  intro _ _
  exact storeString _ _

theorem handleRecord (mallocs : S.Mallocs) {connection : Connection} (carvable : Carvable connection) :
    Traces (handleRecord S connection) (LoopPass Carvable Carvable) := by
  unfold Leftover.handleRecord
  split
  · exact .pure carvable
  · split
    · apply (process mallocs carvable.rounded _).bind
      intro request rounded
      split
      · exact .pure ⟨carvable.brief, rounded⟩
      · split
        · apply (requestExecute mallocs request).bind
          intro _ _
          exact .pure ⟨carvable.brief, rounded⟩
        · exact .pure ⟨brief_init, rounded⟩
    · exact .pure carvable

theorem parseBuffer (mallocs : S.Mallocs) {connection : Connection} (carvable : Carvable connection) (buffer : List UInt8) :
    Traces (parseBuffer S connection buffer) Carvable := by
  have pass : ∀ progress : Progress, Carvable progress.connection →
      Traces (parsePass S buffer progress) (LoopPass (fun progress => Carvable progress.connection) Carvable) := by
    intro progress carvable
    unfold parsePass
    split
    · apply (parse mallocs _ _ carvable.brief).bind
      intro (parser, parsed) brief
      apply (logWriteFormat mallocs _ _).bind
      intro _ _
      apply (@handleRecord S mallocs { progress.connection with parser } ⟨brief, carvable.rounded⟩).bind
      intro handled after
      cases handled with
      | done connection => exact .pure after
      | next connection => exact .pure after
    · exact .pure carvable
  exact whileLoop pass _ _ carvable

theorem parseBuffers (mallocs : S.Mallocs) (buffers : List (List UInt8)) :
    ∀ {connection : Connection}, Carvable connection → Traces (parseBuffers S connection buffers) Carvable := by
  induction buffers with
  | nil => exact fun carvable => .pure carvable
  | cons buffer buffers ih =>
    intro connection carvable
    apply (parseBuffer mallocs carvable buffer).bind
    intro connection carvable
    exact ih carvable

/-- The last part of a session only looks. -/
theorem observe (connection : Connection) : Traces (observe S connection) fun _ => True := by
  have string : ∀ pointer, Traces (observeString S pointer) fun _ => True := by
    intro pointer
    unfold observeString
    split
    · exact .pure trivial
    · apply (loadString _).bind
      intro string _
      apply (load _ _ _).bind
      intro octets _
      exact .pure trivial
  have pass : ∀ r, Traces (observePass S r) fun _ => True := by
    intro (node, seen)
    unfold observePass
    dsimp only
    split
    · exact .pure trivial
    · apply (load64 _ _).bind
      intro hash _
      apply (load64 _ _).bind
      intro key _
      apply (string _).bind
      intro key _
      apply (load64 _ _).bind
      intro value _
      apply (string _).bind
      intro value _
      apply (load64 _ _).bind
      intro next _
      exact .pure trivial
  have chains : ∀ buckets slots, Traces (observeChains S buckets slots) fun _ => True := by
    intro buckets slots
    induction slots with
    | nil => exact .pure trivial
    | cons n rest ih =>
      apply (load64 _ _).bind
      intro bucket _
      apply (loop pass _ _).bind
      intro chain _
      apply ih.bind
      intro chains _
      exact .pure trivial
  apply (chains _ _).bind
  intro chains _
  apply (load _ _ _).bind
  intro stdin _
  exact .pure trivial

/-- **A session.** -/
theorem session (mallocs : S.Mallocs) (slot : Connection) (buffers : List (List UInt8)) :
    Traces (session S slot buffers) fun _ => True := by
  apply (initConnection slot).bind
  intro connection carvable
  apply layLocals.bind
  intro _ _
  apply (parseBuffers mallocs buffers carvable).bind
  intro connection _
  exact observe connection

end Traces

end Cpptrw.Leftover
