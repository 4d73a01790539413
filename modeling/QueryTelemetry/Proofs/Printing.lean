import QueryTelemetry.Json.Basic
import QueryTelemetry.Proofs.Legible

/-!
# Printed documents

Printing stops at an integer that is too long to be printed, so a document is printed to its end
exactly if all its integers are short. Then the text of a list is that of its items one behind the
other, with the separator between them, and what closes it at the end.
-/

set_option autoImplicit false

namespace QueryTelemetry.Json
open Payload (AllShort all_short_append)

mutual

def integers : Json → List Int
  | .int n => [n]
  | .arr items => itemIntegers items
  | .obj members => memberIntegers members
  | _ => []

def itemIntegers : List Json → List Int
  | [] => []
  | v :: r => integers v ++ itemIntegers r

def memberIntegers : List (Utf16 × Json) → List Int
  | [] => []
  | (_, v) :: r => integers v ++ memberIntegers r

end

theorem all_short_one (n : Int) : AllShort [n] ↔ n.natAbs < Integer.ceiling := by
  simp [AllShort]

@[simp] theorem after_chars (cs : List Char) (k : Printed) :
    (Printed.after cs k).chars = cs ++ k.chars := rfl

@[simp] theorem after_complete (cs : List Char) (k : Printed) :
    (Printed.after cs k).complete = k.complete := rfl

theorem integer_complete (n : Int) (f : List Char → List Char) (k : Printed) :
    (Printed.after? ((Integer.chars? n).map f) k).complete ↔ AllShort [n] ∧ k.complete := by
  rw [all_short_one, Integer.chars?]
  by_cases h : n.natAbs < Integer.ceiling
  · rw [if_pos h, Option.map_some, Printed.after?]
    exact (and_iff_right h).symm
  · rw [if_neg h]
    exact ⟨fun hf => absurd hf Bool.false_ne_true, fun hn => absurd hn.1 h⟩

mutual

theorem lines_complete : ∀ (v : Json) (depth : Nat) (k : Printed),
    (lines depth v k).complete ↔ AllShort v.integers ∧ k.complete
  | .null, _, _ | .bool _, _, _ | .float _, _, _ | .str _, _, _
  | .arr [], _, _ | .obj [], _, _ => by
    simp [lines, integers, itemIntegers, memberIntegers, AllShort]
  | .int n, depth, k => by
    have h := integer_complete n id k
    rw [Option.map_id, id_eq] at h
    rw [lines, integers]
    exact h
  | .arr (v :: r), depth, k => by
    rw [lines, item_lines_complete, after_complete, integers]
    · exact List.cons_ne_nil v r
  | .obj (p :: r), depth, k => by
    rw [lines, member_lines_complete, after_complete, integers]
    · exact List.cons_ne_nil p r

theorem item_lines_complete : ∀ (vs : List Json) (depth : Nat) (separator : List Char)
    (k : Printed),
    (itemLines depth separator vs k).complete ↔ AllShort (itemIntegers vs) ∧ k.complete
  | [], _, _, _ => by simp [itemLines, itemIntegers, AllShort]
  | .int n :: r, depth, separator, k => by
    rw [itemLines, integer_complete, item_lines_complete r, itemIntegers, all_short_append,
      and_assoc]
    rfl
  | .null :: r, depth, separator, k | .bool _ :: r, depth, separator, k
  | .float _ :: r, depth, separator, k | .str _ :: r, depth, separator, k
  | .arr _ :: r, depth, separator, k | .obj _ :: r, depth, separator, k => by
    rw [itemLines, after_complete, lines_complete, item_lines_complete r, itemIntegers,
      all_short_append, and_assoc]
    intro n h
    cases h

theorem member_lines_complete : ∀ (ms : List (Utf16 × Json)) (depth : Nat)
    (separator : List Char) (k : Printed),
    (memberLines depth separator ms k).complete ↔ AllShort (memberIntegers ms) ∧ k.complete
  | [], _, _, _ => by simp [memberLines, memberIntegers, AllShort]
  | (_, v) :: r, depth, separator, k => by
    rw [memberLines, after_complete, lines_complete v, member_lines_complete r, memberIntegers,
      all_short_append, and_assoc]

end

theorem pretty_complete (v : Json) : v.pretty.complete ↔ AllShort v.integers := by
  rw [pretty, lines_complete]
  exact and_iff_left rfl

theorem integer_chars {n : Int} (h : AllShort [n]) :
    Integer.chars? n = some (Integer.signed n (Nat.toDigits 10 n.natAbs)) := by
  rw [Integer.chars?, if_pos ((all_short_one n).mp h)]

theorem item_lines_cons {v : Json} (hv : AllShort v.integers) (depth : Nat)
    (separator : List Char) (r : List Json) (k : Printed) :
    itemLines depth separator (v :: r) k =
      .after separator (lines depth v (itemLines depth (',' :: newline depth) r k)) := by
  cases v with
  | int n =>
    rw [itemLines, lines, integer_chars hv, Option.map_some, Printed.after?, Printed.after?,
      Printed.after, Printed.after, Printed.after, List.append_assoc]
  | null | bool _ | float _ | str _ | arr _ | obj _ => rw [itemLines]; simp

def closing (depth : Nat) (bracket : Char) (k : Printed) : Printed :=
  .after (newline depth ++ [bracket]) k

theorem closing_chars (depth : Nat) (bracket : Char) (k : Printed) :
    (closing depth bracket k).chars = newline depth ++ bracket :: k.chars := by
  rw [closing, after_chars, List.append_assoc]
  rfl

theorem lines_arr {vs : List Json} (hne : vs ≠ []) (depth : Nat) (k : Printed) :
    lines depth (.arr vs) k =
      itemLines (depth + 1) ('[' :: newline (depth + 1)) vs (closing depth ']' k) := by
  cases vs with
  | nil => exact absurd rfl hne
  | cons v r => rfl

theorem lines_obj {ms : List (Utf16 × Json)} (hne : ms ≠ []) (depth : Nat) (k : Printed) :
    lines depth (.obj ms) k =
      memberLines (depth + 1) ('\x7b' :: newline (depth + 1)) ms (closing depth '\x7d' k) := by
  cases ms with
  | nil => exact absurd rfl hne
  | cons p r => rfl

theorem lines_chars {v : Json} (hv : AllShort v.integers) (depth : Nat) (k : Printed) :
    (lines depth v k).chars = (lines depth v (.done [])).chars ++ k.chars := by
  have hc : (lines depth v (.done [])).complete := (lines_complete v depth _).mpr ⟨hv, rfl⟩
  rw [lines_append, Printed.append, if_pos hc]

theorem item_lines_separator {vs : List Json} (hne : vs ≠ []) (hv : ∀ v ∈ vs, AllShort v.integers)
    (depth : Nat) (separator : List Char) (k : Printed) :
    (itemLines depth separator vs k).chars = separator ++ (itemLines depth [] vs k).chars := by
  cases vs with
  | nil => exact absurd rfl hne
  | cons v r =>
    have hv := hv v List.mem_cons_self
    rw [item_lines_cons hv, item_lines_cons hv]
    rfl

theorem member_lines_cons (key : Utf16) (v : Json) (depth : Nat) (r : List (Utf16 × Json))
    (k : Printed) : (memberLines depth [] ((key, v) :: r) k).chars = stringChars key ++
      (':' :: ' ' :: (lines depth v (memberLines depth (',' :: newline depth) r k)).chars) := by
  rw [memberLines, after_chars, List.nil_append, List.append_assoc]
  rfl

theorem member_lines_separator {ms : List (Utf16 × Json)} (hne : ms ≠ []) (depth : Nat)
    (separator : List Char) (k : Printed) :
    (memberLines depth separator ms k).chars = separator ++ (memberLines depth [] ms k).chars := by
  cases ms with
  | nil => exact absurd rfl hne
  | cons p r =>
    rw [memberLines, memberLines, after_chars, after_chars, List.nil_append]
    simp only [List.append_assoc]

end QueryTelemetry.Json
