import Cpptrw.Text.Format

/-!
# Records of the log (`sl_log_write_buffer`)

A record is put together in a buffer on the stack by up to twelve calls of
`sl_log_append`, each of which cuts its source down to the room that is left,
and the newline comes by the last of them. After any number of calls the line
holds the first octets of what the calls were given (`appendAll_start`), so a
record that fills the buffer leaves no room for its newline.
-/

namespace Cpptrw.Text

open Lib

/-- `enum sl_log_level`. -/
inductive LogLevel where
  | debug
  | info
  | error
  | max
  deriving DecidableEq, Repr

/-- The constant of the enumeration. -/
def LogLevel.value : LogLevel → Nat
  | debug => 0
  | info => 1
  | error => 2
  | max => 3

/-- `sl_log_levels`. -/
def logLevels : List (List UInt8) := [octetsOf "[debug] ", octetsOf "[info] ", octetsOf "[error] "]

/-- An array of `size` characters that holds a C string. -/
structure CharArray (size : Nat) extends CString where
  fits : octets.length < size

/-- The structure `sl_log`. -/
structure SlLog where
  minLevel : LogLevel
  logFd : Int
  pid : CharArray 11
  ipAddress : CharArray 16
  ipPort : CharArray 6

/-- `SL_LOG_MAX_MESSAGE_LENGTH`. -/
def maxMessageLength : Nat := 1024

/-- The local buffer of `sl_log_write_buffer` with its used size. -/
structure Line where
  buffer : Buffer
  used : Nat

/-- `char log_buffer[SL_LOG_MAX_MESSAGE_LENGTH] = {0}`. -/
def Line.start : Line := ⟨List.replicate maxMessageLength (some 0), 0⟩

/-- `sl_log_append`. -/
def logAppend (destSize : Nat) (src : List UInt8) (line : Line) : Except Fault Line := do
  let room := sub64 destSize line.used
  let srcSize := if src.length > room then room else src.length
  let buffer ← line.buffer.copy line.used (src.take srcSize)
  pure ⟨buffer, wrap64 (line.used + srcSize)⟩

/-- One call of `sl_log_append` after the other. -/
def appendAll : List (List UInt8) → Line → Except Fault Line
  | [], line => .ok line
  | src :: sources, line => logAppend maxMessageLength src line >>= appendAll sources

/-- What a call of `sl_log_write_buffer` finds around it: the octets that `strftime`
stored, `errno` when it is tested, and the texts of `strerror`. -/
structure LogContext where
  date : List UInt8
  errno : Int
  strerror : Int → CString

variable (log : SlLog) (level : LogLevel) (message : List UInt8) (context : LogContext)

/-- The condition under which the text of the error is printed, and `errno` cleared. -/
abbrev PrintsError : Prop := level = .error ∧ context.errno > 0

/-- The sources of the calls of `sl_log_append` in front of the newline, in order. -/
def recordSources (levelText : List UInt8) : List (List UInt8) :=
  [context.date, levelText] ++
  (if log.pid.octets ≠ [] then [octetsOf "#", log.pid.octets, octetsOf " "] else []) ++
  (if log.ipAddress.octets ≠ [] ∧ log.ipPort.octets ≠ [] then
    [log.ipAddress.octets, octetsOf ":", log.ipPort.octets, octetsOf " "] else []) ++
  [message] ++
  (if PrintsError level context then [octetsOf ": ", (context.strerror context.errno).octets] else [])

def newline : UInt8 := code '\n'

/-- `sl_log_write_buffer`: the descriptor and the octets of its `write`, if it comes
to one, and `errno` afterwards. -/
def writeBuffer : Except Fault (Option (Int × List UInt8) × Int) :=
  if level.value < log.minLevel.value ∨ level.value ≥ LogLevel.max.value then .ok (none, context.errno)
  else
    match logLevels[level.value]? with
    | none => .error .outOfBounds
    | some levelText => do
      let line ← appendAll (recordSources log level message context levelText ++ [[newline]]) Line.start
      let octets ← line.buffer.read line.used
      pure (some (log.logFd, octets), if PrintsError level context then 0 else context.errno)

/-! ## What the line holds -/

/-- The line with these octets, and zeroes behind them. -/
def Line.holding (kept : List UInt8) : Line :=
  ⟨kept.map some ++ List.replicate (maxMessageLength - kept.length) (some 0), kept.length⟩

/-- One call: the subtraction does not underflow, and as much is copied as there is room for. -/
theorem logAppend_holding (src : List UInt8) {kept : List UInt8} (room : kept.length ≤ maxMessageLength) :
    logAppend maxMessageLength src (.holding kept) = .ok (.holding (kept ++ src.take (maxMessageLength - kept.length))) := by
  have small : maxMessageLength < 2 ^ 64 := by decide
  have cut : src.take (if src.length > maxMessageLength - kept.length then maxMessageLength - kept.length else src.length) =
      src.take (maxMessageLength - kept.length) := by
    split
    · rfl
    · rw [List.take_length, List.take_of_length_le (by omega)]
  have size : (src.take (maxMessageLength - kept.length)).length =
      if src.length > maxMessageLength - kept.length then maxMessageLength - kept.length else src.length := by
    rw [← cut, List.length_take]
    split <;> omega
  have copied := Buffer.copy_behind (kept.map some) (List.replicate (maxMessageLength - kept.length) (some 0))
    (src.take (maxMessageLength - kept.length)) (by rw [List.length_replicate]; exact List.length_take_le ..)
  rw [List.length_map] at copied
  have fits : kept.length + (src.take (maxMessageLength - kept.length)).length ≤ maxMessageLength := by
    rw [List.length_take]
    omega
  rw [List.drop_replicate] at copied
  simp only [logAppend, Line.holding, sub64_of_le small room, cut, copied, List.map_append, List.length_append]
  rw [← size, ← Nat.sub_sub, wrap64_of_lt (Nat.lt_of_le_of_lt fits small)]
  rfl

/-- After any number of calls the line holds the first octets of their sources. -/
theorem appendAll_holding (sources : List (List UInt8)) :
    ∀ octets, appendAll sources (.holding (octets.take maxMessageLength)) =
      .ok (.holding ((octets ++ sources.flatten).take maxMessageLength)) := by
  induction sources with
  | nil =>
    intro octets
    rw [List.flatten_nil, List.append_nil]
    rfl
  | cons src sources ih =>
    intro octets
    have room : maxMessageLength - (octets.take maxMessageLength).length = maxMessageLength - octets.length := by
      rw [List.length_take]
      omega
    rw [appendAll, logAppend_holding src (List.length_take_le ..), room, ← List.take_append, List.flatten_cons,
      ← List.append_assoc]
    exact ih (octets ++ src)

theorem appendAll_start (sources : List (List UInt8)) :
    appendAll sources Line.start = .ok (.holding (sources.flatten.take maxMessageLength)) :=
  appendAll_holding sources []

theorem read_holding (kept : List UInt8) : (Line.holding kept).buffer.read (Line.holding kept).used = .ok kept :=
  Buffer.read_map_append kept _

/-! ## Records -/

/-- The text of a level. -/
def levelText : LogLevel → List UInt8
  | .debug => octetsOf "[debug] "
  | .info => octetsOf "[info] "
  | .error => octetsOf "[error] "
  | .max => []

theorem logLevels_value {level : LogLevel} (known : level ≠ .max) : logLevels[level.value]? = some (levelText level) := by
  cases level with
  | max => exact absurd rfl known
  | _ => rfl

/-- The whole of a record in front of its newline. -/
def record : List UInt8 := (recordSources log level message context (levelText level)).flatten

/-- The calls of `sl_log_append` for a record. -/
def appendCalls : List (List UInt8) := recordSources log level message context (levelText level) ++ [[newline]]

/-- The record as it shall be written: in no call is the size of the buffer below what is used of it,
and the `write` is given a bounded line of as much of the record as fits and a newline. -/
def LoggedAsLine : Prop :=
  (∀ earlier src later, appendCalls log level message context = earlier ++ src :: later →
    ∃ line, appendAll earlier Line.start = .ok line ∧ line.used ≤ maxMessageLength) ∧
  ∃ octets errno, writeBuffer log level message context = .ok (some (log.logFd, octets), errno) ∧
    octets.length ≤ maxMessageLength ∧
    ∃ body, body <+: record log level message context ∧ octets = body ++ [newline] ∧
      ((record log level message context).length + 1 ≤ maxMessageLength → body = record log level message context)

variable {log level message context}

/-- What is written, whatever the parts of the record are. -/
theorem writeBuffer_printed (printed : log.minLevel.value ≤ level.value) (known : level ≠ .max) :
    writeBuffer log level message context =
      .ok (some (log.logFd, (record log level message context ++ [newline]).take maxMessageLength),
        if PrintsError level context then 0 else context.errno) := by
  have below : level.value < LogLevel.max.value := by
    cases level with
    | max => exact absurd rfl known
    | _ => decide
  have sources : (appendCalls log level message context).flatten = record log level message context ++ [newline] := by
    rw [appendCalls, List.flatten_append, List.flatten_singleton, record]
  have line := appendAll_start (appendCalls log level message context)
  rw [sources, appendCalls] at line
  rw [writeBuffer, if_neg (by omega), logLevels_value known]
  simp only [line]
  change (Buffer.read _ _ >>= fun octets => pure _) = _
  rw [read_holding]
  rfl

/-- No call finds more used than there is. -/
theorem used_le {earlier : List (List UInt8)} {line : Line} (h : appendAll earlier Line.start = .ok line) :
    line.used ≤ maxMessageLength := by
  rw [appendAll_start] at h
  cases h
  exact List.length_take_le ..

/-- When the octets of a record, cut at the end of the buffer, are a line: its newline is among them,
or the last octet that fits is one. -/
theorem line_iff {octets : List UInt8} {room : Nat} :
    (∃ body, body <+: octets ∧ (octets ++ [newline]).take (room + 1) = body ++ [newline] ∧
      (octets.length + 1 ≤ room + 1 → body = octets)) ↔
    octets.length < room + 1 ∨ octets[room]? = some newline := by
  by_cases fits : octets.length < room + 1
  · have whole : (octets ++ [newline]).take (room + 1) = octets ++ [newline] :=
      List.take_of_length_le (by rw [List.length_append]; exact fits)
    constructor
    · intro _
      exact Or.inl fits
    · intro _
      exact ⟨octets, List.prefix_refl octets, whole, fun _ => rfl⟩
  · have cut : (octets ++ [newline]).take (room + 1) = octets.take room ++ octets[room]?.toList := by
      rw [List.take_append_of_le_length (by omega), List.take_add_one]
    have length : (octets.take room).length = room := by
      rw [List.length_take]
      omega
    rw [cut]
    constructor
    · intro h
      obtain ⟨body, -, same, -⟩ := h
      obtain ⟨octet, last⟩ : ∃ octet, octets[room]? = some octet := ⟨_, List.getElem?_eq_getElem (by omega)⟩
      rw [last, Option.toList_some] at same
      have here := List.append_inj_right' same rfl
      rw [last, List.head_eq_of_cons_eq here]
      exact Or.inr rfl
    · intro h
      have last := h.resolve_left fits
      rw [last]
      exact ⟨octets.take room, List.take_prefix _ _, rfl, fun whole => absurd whole (by omega)⟩

/-- The bound and the subtractions are right in any case, so it is about the newline alone. -/
theorem loggedAsLine_iff_cut (printed : log.minLevel.value ≤ level.value) (known : level ≠ .max) :
    LoggedAsLine log level message context ↔
      ∃ body, body <+: record log level message context ∧
        (record log level message context ++ [newline]).take maxMessageLength = body ++ [newline] ∧
        ((record log level message context).length + 1 ≤ maxMessageLength → body = record log level message context) := by
  constructor
  · intro h
    obtain ⟨-, octets, errno, run, -, body, front, same, whole⟩ := h
    rw [writeBuffer_printed printed known] at run
    cases run
    exact ⟨body, front, same, whole⟩
  · intro h
    obtain ⟨body, front, same, whole⟩ := h
    constructor
    · intro earlier src later _
      exact ⟨_, appendAll_start earlier, used_le (appendAll_start earlier)⟩
    · exact ⟨_, _, writeBuffer_printed printed known, List.length_take_le .., body, front, same, whole⟩

/-- **A record is a line** exactly when its parts leave room for the newline, or the octet in its
place is one. -/
theorem logged_iff (log : SlLog) (level : LogLevel) (message : List UInt8) (context : LogContext)
    (printed : log.minLevel.value ≤ level.value) (known : level ≠ .max) :
    LoggedAsLine log level message context ↔
      (record log level message context).length < maxMessageLength ∨
      (record log level message context)[maxMessageLength - 1]? = some newline :=
  (loggedAsLine_iff_cut printed known).trans line_iff

/-! ## A message of 1100 letters -/

/-- A log without process or peer. -/
def anyLog : SlLog where
  minLevel := .debug
  logFd := 2
  pid := { octets := [], terminated := by decide, fits := by decide }
  ipAddress := { octets := [], terminated := by decide, fits := by decide }
  ipPort := { octets := [], terminated := by decide, fits := by decide }

def noError : LogContext := ⟨octetsOf "11/18/25 23:34:00 ", 0, fun _ => ⟨[], by decide⟩⟩

theorem logged_iff_reusing :
    LoggedAsLine anyLog .info (octetsOf "Reusing connection") noError ↔
      (record anyLog .info (octetsOf "Reusing connection") noError).length < maxMessageLength ∨
      (record anyLog .info (octetsOf "Reusing connection") noError)[maxMessageLength - 1]? = some newline :=
  logged_iff anyLog .info (octetsOf "Reusing connection") noError (by decide) (by decide)

/-- The letters fill the buffer, and the next record goes on in the same line. -/
theorem long_message_without_newline :
    anyLog.minLevel.value ≤ LogLevel.info.value ∧ LogLevel.info ≠ .max ∧
      ¬LoggedAsLine anyLog .info (List.replicate 1100 (code 'A')) noError := by
  have long : ¬((record anyLog .info (List.replicate 1100 (code 'A')) noError).length < 1023 + 1 ∨
      (record anyLog .info (List.replicate 1100 (code 'A')) noError)[1023]? = some newline) := by decide +kernel
  have cut := @loggedAsLine_iff_cut anyLog .info (List.replicate 1100 (code 'A')) noError (by decide) (by decide)
  exact ⟨by decide, by decide, fun h => long (line_iff.mp (cut.mp h))⟩

end Cpptrw.Text
