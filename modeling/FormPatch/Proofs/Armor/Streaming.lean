import FormPatch.Armor.Patch
import FormPatch.Proofs.Statement.Streaming
import FormPatch.Proofs.Syntax.Composed

/-!
# Armor patches in texts that go on

The readers of armor patches are composed, so they stream. Some of them look at a word that they do
not take: behind a number may stand a point, behind an edit another one. What they answered stands
all the same, because the last word of a patch is its semicolon.
-/

namespace FormPatch

open Syntax Syntax.Reader

namespace ArmorOperation

/-- The reader of slots is put together from the readers of their parts. -/
theorem composed_readSlots : readSlots.Composed :=
  composed_slot.bind fun _ => (Composed.afterEach "|" (by decide) composed_slot).bind fun _ =>
    .answers _

/-- The reader of an edit of slots is put together from the readers of its parts. -/
theorem composed_readSlotEdit : readSlotEdit.Composed := by
  refine .bind .takes fun word => (composed_expect "(").bind fun _ => ?_
  split
  · exact (composed_expect ")").bind fun _ => .answers _
  · split
    · exact (composed_arguments composed_slot).bind fun _ => .answers _
    · split
      · exact (composed_arguments composed_slot).bind fun _ => .answers _
      · exact .fails _

/-- The reader of an edit of keywords is put together from the readers of its parts. -/
theorem composed_readKeywordEdit : readKeywordEdit.Composed := by
  refine .bind .takes fun word => (composed_expect "(").bind fun _ => ?_
  split
  · exact (composed_expect ")").bind fun _ => .answers _
  · split
    · exact (composed_arguments composed_form).bind fun _ => .answers _
    · split
      · exact (composed_arguments composed_form).bind fun _ => .answers _
      · exact .fails _

/-- The reader of edits is put together from readers when that of one edit is. -/
theorem composed_readEdits (field : ArmorField) {edit : Reader ArmorOperation}
    (edits : edit.Composed) : (readEdits field edit).Composed := by
  refine (Composed.afterEach "." (by decide) edits).bind fun found => ?_
  split
  · exact .bind .looks fun _ => .fails _
  · exact .answers _

/-- The reader of a value that is set is put together from readers when that of the value is. -/
theorem composed_readSet {α : Type} {value : Reader α} (values : value.Composed)
    (set : α → ArmorOperation) : (readSet value set).Composed :=
  (composed_expect "=").bind fun _ => values.bind fun _ => .answers _

/-- The edits of every field are read by a composed reader. -/
theorem composed_read (field : ArmorField) : (read field).Composed := by
  cases field with
  | slots =>
    refine (composed_accept "=").bind fun found => ?_
    cases found with
    | true => exact composed_readSlots.bind fun _ => .answers _
    | false => exact composed_readEdits .slots composed_readSlotEdit
  | keywords => exact composed_readEdits .keywords composed_readKeywordEdit
  | fullName => exact composed_readSet composed_string setFullName
  | rating => exact composed_readSet composed_number setRating
  | weight => exact composed_readSet composed_number setWeight
  | value => exact composed_readSet composed_integer setValue

end ArmorOperation

namespace ArmorPatch

/-- The reader of a filter is put together from the readers of its parts. -/
theorem composed_readFilter : readFilter.Composed := by
  refine .bind .takes fun word => ?_
  cases filterOfWord? word with
  | none => exact .fails _
  | some filter =>
    exact (composed_expect "(").bind fun _ => composed_form.bind fun _ =>
      (composed_expect ")").bind fun _ => .answers _

/-- Patches are read by a composed reader. -/
theorem composed_read : read.Composed := by
  refine composed_readFilter.bind fun filter => (composed_expect ".").bind fun _ => ?_
  refine .bind .takes fun word => ?_
  cases ArmorField.ofWord? word with
  | none => exact .fails _
  | some field =>
    exact (ArmorOperation.composed_read field).bind fun _ => (composed_expect ";").bind fun _ =>
      .answers _

/-- A patch that was read stands: whatever is read in it is followed by a fixed word. -/
theorem standsBefore_read (later : List Token) : read.StandsBefore later := by
  have semicolon (patch : ArmorPatch) : (expect ";" >>= fun _ => pure patch).StandsBefore later :=
    (standsBefore_expect later (by decide)).bind fun _ => standsBefore_pure later patch
  have costs (patch : ArmorPatch) : (expect ";" >>= fun _ => pure patch).Advances :=
    (advances_expect (by decide)).bind _
  refine .after composed_readFilter.streams (fun filter => ?_)
    fun _ => (advances_expect (by decide)).bind _
  refine (standsBefore_expect later (by decide)).bind fun _ => ?_
  refine .after streams_next (fun word => ?_) fun word => ?_
  · cases ArmorField.ofWord? word with
    | none => exact fun _ _ _ ran => absurd ran fail_ne_read
    | some field =>
      exact .after (ArmorOperation.composed_read field).streams (fun _ => semicolon _)
        fun _ => costs _
  · cases ArmorField.ofWord? word with
    | none => exact advances_fail _
    | some field => exact .after (fun _ => costs _) _

/-- The grammar of armor patches streams. -/
theorem streams_grammar : grammar.Streams where
  read := composed_read.streams
  stands := standsBefore_read
  advances := .after (fun _ => (advances_expect (by decide)).bind _) _

end ArmorPatch

end FormPatch
