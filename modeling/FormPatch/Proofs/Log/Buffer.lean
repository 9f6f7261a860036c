import FormPatch.Log

/-!
# Logs that forget

A log keeps its whole history and shows the end of it. A buffer keeps no more than it shows: what
does not fit is dropped, oldest first, and running totals count what is gone. Main statements: a log
seen as a buffer does what the buffer does, call by call, so no capacity makes a difference to the
totals; and what a log shows with a smaller capacity is the end of what it shows with a larger one.
-/

namespace FormPatch.Log

/-- The last items of a list, as many as there are up to a number. -/
def lastOf {α : Type} (count : Nat) (items : List α) : List α := items.drop (items.length - count)

/-- What is added to a whole list is added to its end, and one item may fall out in front. -/
theorem lastOf_append_lastOf {α : Type} (count : Nat) (front behind : List α) :
    lastOf count (lastOf count front ++ behind) = lastOf count (front ++ behind) := by
  simp only [lastOf, List.drop_append, List.length_append, List.length_drop, List.drop_drop]
  congr 2 <;> omega

/-- The last items in the order of a history that runs backwards. -/
theorem lastOf_reverse {α : Type} (count : Nat) (items : List α) :
    lastOf count items.reverse = (items.take count).reverse := by
  rw [lastOf, List.length_reverse, List.drop_reverse]
  rcases Nat.le_total items.length count with fits | long
  · rw [Nat.sub_eq_zero_of_le fits, Nat.sub_zero, List.take_length, List.take_of_length_le fits]
  · rw [Nat.sub_sub_self long]

/-- The last of the last items are the last items. -/
theorem lastOf_lastOf {α : Type} {fewer more : Nat} (fits : fewer ≤ more) (items : List α) :
    lastOf fewer (lastOf more items) = lastOf fewer items := by
  simp only [lastOf, List.length_drop, List.drop_drop]
  congr 1
  omega

/-- The log with another capacity. -/
def withCapacity (capacity : Nat) (log : Log) : Log := ⟨capacity, log.history, log.current⟩

/-- What is shown is the end of all that was logged. -/
theorem retained_eq (log : Log) : log.retained = lastOf log.capacity log.everything :=
  (lastOf_reverse _ _).symm

/-- With a smaller capacity, the last of what a larger one shows is shown. -/
theorem retained_withCapacity (log : Log) {fewer more : Nat} (fits : fewer ≤ more) :
    (log.withCapacity fewer).retained = lastOf fewer (log.withCapacity more).retained := by
  rw [retained_eq, retained_eq]
  exact (lastOf_lastOf fits _).symm

/-- The capacity plays no part in logging. -/
theorem pushAll_withCapacity (capacity : Nat) (log : Log) (diagnostics : List Diagnostic) :
    (log.withCapacity capacity).pushAll diagnostics =
      (log.pushAll diagnostics).withCapacity capacity :=
  (List.foldl_hom (withCapacity capacity) fun _ _ => rfl)

/-- A log that keeps no more than it shows. -/
structure Buffer where
  /-- How many diagnostics are kept at most. -/
  capacity : Nat
  /-- The diagnostics that are kept, oldest first. -/
  entries : List Diagnostic
  /-- How many diagnostics of each severity were ever logged. -/
  totals : Severity → Nat
  /-- The file that diagnostics without a file are about. -/
  current : Option Path

/-- Drops items in front until no more than a number of them are left. -/
def evict {α : Type} (count : Nat) : List α → List α
  | [] => []
  | oldest :: later => if count < later.length + 1 then evict count later else oldest :: later

/-- What is left is the end. -/
theorem evict_eq {α : Type} (count : Nat) (items : List α) :
    evict count items = lastOf count items := by
  induction items with
  | nil => rw [evict, lastOf, List.drop_nil]
  | cons oldest later ih =>
    rw [evict, lastOf, List.length_cons]
    split
    · next long =>
      rw [ih, lastOf, Nat.succ_sub (Nat.le_of_lt_succ long), List.drop_succ_cons]
    · next fits =>
      rw [Nat.sub_eq_zero_of_le (Nat.le_of_not_lt fits), List.drop_zero]

namespace Buffer

/-- A buffer that nothing was logged to. -/
def ofCapacity (capacity : Nat) : Buffer := ⟨capacity, [], fun _ => 0, none⟩

/-- The buffer with another current file. -/
def about (buffer : Buffer) (file : Option Path) : Buffer := { buffer with current := file }

/-- Logs a diagnostic, counts it and drops what does not fit. -/
def push (buffer : Buffer) (diagnostic : Diagnostic) : Buffer :=
  let tagged := Log.tag { current := buffer.current } diagnostic
  { buffer with
    entries := evict buffer.capacity (buffer.entries ++ [tagged])
    totals := fun severity =>
      buffer.totals severity + if tagged.severity = severity then 1 else 0 }

end Buffer

/-- What a buffer knows of a log. -/
def buffer (log : Log) : Buffer := ⟨log.capacity, log.retained, log.count, log.current⟩

/-- A log to which nothing was logged is seen as such a buffer. -/
theorem buffer_ofCapacity (capacity : Nat) :
    (ofCapacity capacity).buffer = Buffer.ofCapacity capacity := by
  simp [buffer, ofCapacity, Buffer.ofCapacity, retained, count, funext_iff]

/-- A log and its buffer change the current file alike. -/
theorem buffer_about (log : Log) (file : Option Path) :
    (log.about file).buffer = log.buffer.about file :=
  rfl

/-- A log goes on as its buffer does. -/
theorem buffer_push (log : Log) (diagnostic : Diagnostic) :
    (log.push diagnostic).buffer = log.buffer.push diagnostic := by
  have kept : (log.push diagnostic).retained =
      evict log.capacity (log.retained ++ [log.tag diagnostic]) := by
    have all : (log.push diagnostic).everything = log.everything ++ [log.tag diagnostic] :=
      List.reverse_cons
    rw [evict_eq, retained_eq, retained_eq, lastOf_append_lastOf, all, capacity_push]
  have counted : (log.push diagnostic).count = fun severity =>
      log.count severity + if (log.tag diagnostic).severity = severity then 1 else 0 := by
    funext severity
    rw [count_push, severity_tag]
  rw [buffer, kept, counted]
  rfl

/-- One call to a log. -/
inductive Call where
  /-- What follows is about a file. -/
  | about (file : Option Path)
  /-- A diagnostic is logged. -/
  | push (diagnostic : Diagnostic)

/-- Makes calls to a log, in order. -/
def perform (calls : List Call) (log : Log) : Log :=
  calls.foldl (fun log call => match call with
    | .about file => log.about file
    | .push diagnostic => log.push diagnostic) log

/-- Makes calls to a buffer, in order. -/
def Buffer.perform (calls : List Call) (buffer : Buffer) : Buffer :=
  calls.foldl (fun buffer call => match call with
    | .about file => buffer.about file
    | .push diagnostic => buffer.push diagnostic) buffer

/-- However a log is used, it goes on as its buffer does. -/
theorem buffer_perform (calls : List Call) (log : Log) :
    (log.perform calls).buffer = log.buffer.perform calls := by
  refine (List.foldl_hom buffer fun log call => ?_).symm
  cases call with
  | about file => exact (buffer_about log file).symm
  | push diagnostic => exact (buffer_push log diagnostic).symm

/-- Calls behind others are made on what those have left. -/
theorem perform_append (front behind : List Call) (log : Log) :
    log.perform (front ++ behind) = (log.perform front).perform behind :=
  List.foldl_append

/-- The first call says what the others are about. -/
theorem perform_about (file : Option Path) (calls : List Call) (log : Log) :
    log.perform (.about file :: calls) = (log.about file).perform calls :=
  rfl

/-- Logging diagnostics in order is one call for each of them. -/
theorem perform_push (diagnostics : List Diagnostic) (log : Log) :
    log.perform (diagnostics.map .push) = log.pushAll diagnostics :=
  List.foldl_map

end FormPatch.Log
