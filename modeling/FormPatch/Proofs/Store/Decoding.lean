import FormPatch.Proofs.Store.Resolution
import FormPatch.Proofs.Syntax.Spelling
import FormPatch.Proofs.Text.Hexadecimal
import Mathlib.Data.List.TakeWhile

/-!
# References in writing

A reference is spelled as the name of its plugin, a bar and its number. The name may hold bars of
its own, since the last one counts; the number is hexadecimal, with a mark or without, in letters of
either case and behind any zeros.

Main statement: a text is read as a reference exactly when it spells it, and every other text is
refused. The text of a reference whose plugin has a name spells that reference, so it resolves
exactly when the form is live.
-/

namespace FormPatch

namespace Syntax

/-- A text is split exactly at a bar behind which there is no other one. -/
theorem splitLastBar_eq_some {text plugin number : String} :
    splitLastBar text = some (plugin, number) ↔
      text = plugin ++ ("|" ++ number) ∧ '|' ∉ number.toList := by
  constructor
  · intro split
    unfold splitLastBar at split
    rw [List.span_eq_takeWhile_dropWhile] at split
    cases behind : text.toList.reverse.dropWhile (· != '|') with
    | nil => simp [behind] at split
    | cons bar before =>
      simp only [behind, Option.some.injEq, Prod.mk.injEq] at split
      obtain ⟨rfl, rfl⟩ := split
      have ends : bar = '|' := by
        have stops := List.head?_dropWhile_not (· != '|') text.toList.reverse
        simpa [behind] using stops
      have whole := List.takeWhile_append_dropWhile (p := (· != '|')) (l := text.toList.reverse)
      rw [behind, ends] at whole
      refine ⟨String.toList_inj.1 (List.reverse_injective ?_), fun member => ?_⟩
      · simpa using whole.symm
      · rw [String.toList_ofList, List.mem_reverse] at member
        simpa using List.mem_takeWhile_imp member
  · rintro ⟨rfl, apart⟩
    exact splitLastBar_append apart

end Syntax

namespace FormReference

/-- How references are spelled: the name of the plugin, the last bar, one of the marks of
hexadecimal numbers or none, and digits that denote the number. -/
inductive Spells : String → FormReference → Prop where
  /-- A name that is not empty, and a number behind the last bar. -/
  | mk {plugin mark digits : String} {id : UInt32} (named : plugin ≠ "")
    (last : '|' ∉ (mark ++ digits).toList) (marked : mark ∈ ["", "0x", "0X"])
    (denotes : Text.Denotes digits.toList id.toNat) :
    Spells (plugin ++ ("|" ++ (mark ++ digits))) ⟨plugin, id⟩

/-- A text is a reference exactly when it spells it. -/
theorem parse?_eq_some_iff {text : String} {reference : FormReference} :
    parse? text = some reference ↔ Spells text reference := by
  constructor
  · intro read
    obtain ⟨⟨plugin, word⟩, split, rest⟩ := Option.bind_eq_some_iff.1 read
    obtain ⟨rfl, last⟩ := Syntax.splitLastBar_eq_some.1 split
    simp only [Option.ite_none_right_eq_some, Bool.and_eq_true, bne_iff_ne, decide_eq_true_eq,
      Option.some.injEq] at rest
    obtain ⟨⟨⟨named, hexadecimal⟩, fits⟩, rfl⟩ := rest
    obtain ⟨mark, marked, spelled, run⟩ := Text.isHexNumber_iff.1 ⟨hexadecimal, rfl⟩
    have dropped : Text.dropHexMark word.toList = (Text.stripHexMark word).toList := by
      rw [Text.stripHexMark, String.toList_ofList]
    generalize Text.stripHexMark word = digits at spelled run dropped
    subst spelled
    refine .mk named last marked (Text.denotes_iff.2 ⟨run, ?_⟩)
    rw [← dropped, UInt32.toNat_ofNat_of_lt' fits]
  · rintro @⟨plugin, mark, digits, id, named, last, marked, denotes⟩
    obtain ⟨run, value⟩ := Text.denotes_iff.1 denotes
    obtain ⟨hexadecimal, stripped⟩ := Text.isHexNumber_iff.2 ⟨mark, marked, rfl, run⟩
    have dropped : Text.dropHexMark (mark ++ digits).toList = digits.toList := by
      have digits := congrArg String.toList stripped
      rwa [Text.stripHexMark, String.toList_ofList] at digits
    have fits : id.toNat < UInt32.size := id.toNat_lt
    simp only [parse?, Syntax.splitLastBar_append last, Option.bind_eq_bind, Option.bind_some,
      dropped, value, hexadecimal, fits]
    simp [named]

/-- Reading answers with what a text spells. -/
theorem parse_eq_ok_iff {text : String} {reference : FormReference} :
    parse text = .ok reference ↔ Spells text reference := by
  rw [← parse?_eq_some_iff, parse]
  cases parse? text <;> simp

/-- Reading fails exactly when nothing is spelled, and says which text it was. -/
theorem parse_eq_error_iff {text : String} :
    parse text = .error (.unknownForm s!"malformed form reference: {text}") ↔
      ∀ reference, ¬ Spells text reference := by
  simp only [← parse?_eq_some_iff, parse]
  cases parse? text <;> simp

/-- The text of a reference spells it, and nothing else, exactly when its plugin has a name. -/
theorem spells_text_iff {reference found : FormReference} :
    Spells reference.text found ↔ found = reference ∧ reference.plugin ≠ "" := by
  rw [← parse?_eq_some_iff, parse?_text]
  by_cases nameless : reference.plugin = ""
  · simp [nameless]
  · simp [nameless, eq_comm]

end FormReference

/-- A text is read as a reference exactly when it spells it: it is the name of the plugin, the last
bar, a mark or none, and hexadecimal digits of a number below two to the thirty-second. Every other
text is refused as malformed. The text of a reference is read as that reference exactly when the
name of its plugin is not empty, and in every store it then resolves exactly when the form is
live. -/
theorem decoding_of_references :
    (∀ text reference, FormReference.parse text = .ok reference ↔
      FormReference.Spells text reference) ∧
    (∀ text, FormReference.parse text =
        .error (.unknownForm s!"malformed form reference: {text}") ↔
      ∀ reference, ¬ FormReference.Spells text reference) ∧
    ∀ reference found : FormReference,
      (FormReference.parse reference.text = .ok found ↔
        found = reference ∧ reference.plugin ≠ "") ∧
      ∀ store : Store, store.resolve reference.text = .ok found ↔
        found = reference ∧ reference.plugin ≠ "" ∧ store.isLive reference = true := by
  refine ⟨fun _ _ => FormReference.parse_eq_ok_iff, fun _ => FormReference.parse_eq_error_iff,
    fun reference found => ⟨?_, fun store => ?_⟩⟩
  · rw [FormReference.parse_eq_ok_iff, FormReference.spells_text_iff]
  · rw [Store.resolve_eq_ok_iff, FormReference.parse?_eq_some_iff, FormReference.spells_text_iff,
      and_assoc]
    refine and_congr_right fun same => ?_
    rw [same]

/-- Of two bars the last one counts, and a mark in front of the digits is no digit. -/
example : FormReference.parse? "A|0x1|0X00fF" = some ⟨"A|0x1", 0xFF⟩ := by decide

end FormPatch
