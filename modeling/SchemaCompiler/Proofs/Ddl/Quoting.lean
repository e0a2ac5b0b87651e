import SchemaCompiler.Ddl.Statement
import SchemaCompiler.Proofs.Text.Determined
import Mathlib

/-! # Quoted identifiers

A name may hold any characters, and its quoted form still shows where it ends: an accent within the name is
doubled, and one that stands alone closes it. -/

namespace SchemaCompiler

namespace Ddl

open Text

/-- Reads a quoted identifier behind its first accent, up to an accent that stands alone. -/
def scanQuoted? : List Char → Option (List Char × List Char)
  | [] => none
  | [c] => if c = accent then some ([], []) else none
  | c :: d :: rest =>
    if c ≠ accent then (scanQuoted? (d :: rest)).map fun read => (c :: read.1, read.2)
    else if d = accent then (scanQuoted? rest).map fun read => (accent :: read.1, read.2)
    else some ([], d :: rest)

/-- The identifier that a text starts with, and the rest of the text. -/
def readIdentifier? (text : String) : Option (String × String) :=
  match text.toList with
  | [] => none
  | c :: rest =>
    if c = accent then
      (scanQuoted? rest).map fun read => (String.ofList read.1, String.ofList read.2)
    else none

theorem scanQuoted?_cons {c : Char} (h : c ≠ accent) (s : List Char) :
    scanQuoted? (c :: s) = (scanQuoted? s).map fun read => (c :: read.1, read.2) := by
  cases s with
  | nil => simp [scanQuoted?, h]
  | cons d s => simp [scanQuoted?, h]

/-- A quoted identifier is read back in front of anything but a further accent. -/
theorem scanQuoted?_flatMap (name : List Char) {rest : List Char} (h : rest.head? ≠ some accent) :
    scanQuoted? (name.flatMap doubleAccent ++ accent :: rest) = some (name, rest) := by
  induction name with
  | nil =>
      cases rest with
      | nil => simp [scanQuoted?]
      | cons d rest =>
          have hd : d ≠ accent := fun hd => h (by simp [hd])
          simp [scanQuoted?, hd]
  | cons c name ih =>
      rw [List.flatMap_cons, List.append_assoc]
      by_cases hc : c = accent
      · subst hc
        simp only [doubleAccent, if_true, List.cons_append, List.nil_append, scanQuoted?, ne_eq,
          not_true_eq_false, if_false, ih, Option.map_some]
      · simp only [doubleAccent, hc, if_false, List.cons_append, List.nil_append, scanQuoted?_cons hc,
          ih, Option.map_some]

theorem toList_quoteIdentifier (name : String) : (quoteIdentifier name).toList =
    accent :: (name.toList.flatMap doubleAccent ++ [accent]) := by
  rw [quoteIdentifier, String.toList_ofList]

theorem readIdentifier?_quoteIdentifier (name : String) {rest : String}
    (h : rest.toList.head? ≠ some accent) :
    readIdentifier? (quoteIdentifier name ++ rest) = some (name, rest) := by
  have htext : (quoteIdentifier name ++ rest).toList =
      accent :: (name.toList.flatMap doubleAccent ++ accent :: rest.toList) := by
    rw [String.toList_append, toList_quoteIdentifier, List.cons_append, List.append_assoc]
    rfl
  simp only [readIdentifier?, htext, if_true, scanQuoted?_flatMap name.toList h, Option.map_some,
    String.ofList_toList]

theorem determines_quoteIdentifier : Determines (fun _ : String => True)
    (fun s => s.head? ≠ some accent) fun name => (quoteIdentifier name).toList := by
  intro a b _ _ s t hs ht h
  have hread := congrArg (fun text => readIdentifier? (String.ofList text)) h
  have happend : ∀ name : String, ∀ rest : List Char,
      String.ofList ((quoteIdentifier name).toList ++ rest) =
        quoteIdentifier name ++ String.ofList rest := by
    intro name rest
    rw [← String.toList_inj, String.toList_ofList, String.toList_append, String.toList_ofList]
  simp only [happend] at hread
  rw [readIdentifier?_quoteIdentifier a (by rwa [String.toList_ofList]),
    readIdentifier?_quoteIdentifier b (by rwa [String.toList_ofList])] at hread
  simpa [String.ofList_inj] using hread

end Ddl

end SchemaCompiler
