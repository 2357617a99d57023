import Mathlib.Data.List.TakeWhile
import Mathlib.Tactic.Common

/-! Pieces of a text between separators, without the empty piece a final separator leaves. -/

set_option autoImplicit false

namespace OpenGcl.Library

variable {Symbol : Type} {isSep : Symbol → Bool} {text rest : List Symbol}

def pieces [DecidableEq Symbol] (isSep : Symbol → Bool) (text : List Symbol) : List (List Symbol) :=
  let all := text.splitOnP isSep
  if all.getLast? = some [] then all.dropLast else all

variable [DecidableEq Symbol]

@[simp] theorem pieces_nil : pieces isSep [] = [] := by
  simp [pieces]

theorem pieces_of_forall (nonempty : text ≠ []) (plain : ∀ char ∈ text, isSep char = false) :
    pieces isSep text = [text] := by
  simp [pieces, List.splitOnP_eq_singleton plain, nonempty]

theorem pieces_append_cons (plain : ∀ char ∈ text, isSep char = false) {sep : Symbol}
    (stop : isSep sep) : pieces isSep (text ++ sep :: rest) = text :: pieces isSep rest := by
  have others : rest.splitOnP isSep ≠ [] := List.splitOnP_ne_nil isSep rest
  unfold pieces
  rw [List.splitOnP_append_cons_of_forall_mem plain sep stop]
  simp only [List.getLast?_cons_of_ne_nil others, List.dropLast_cons_of_ne_nil others]
  split
  · rfl
  · rfl

theorem pieces_of_ne_nil (nonempty : text ≠ []) :
    pieces isSep text = text.takeWhile (fun char => !isSep char) ::
      pieces isSep (text.drop ((text.takeWhile fun char => !isSep char).length + 1)) := by
  have plain : ∀ char ∈ text.takeWhile (fun char => !isSep char), isSep char = false := by
    intro char member
    simpa using List.mem_takeWhile_imp member
  have whole := List.takeWhile_append_dropWhile (p := fun char => !isSep char) (l := text)
  cases after : text.dropWhile (fun char => !isSep char) with
  | nil =>
    rw [after, List.append_nil] at whole
    rw [whole] at plain ⊢
    rw [pieces_of_forall nonempty plain, List.drop_of_length_le (Nat.le_succ _), pieces_nil]
  | cons sep rest =>
    have stop : isSep sep := by
      have first := List.head?_dropWhile_not (fun char => !isSep char) text
      rw [after] at first
      simpa using first
    rw [after] at whole
    have dropped : text.drop ((text.takeWhile fun char => !isSep char).length + 1) = rest := by
      calc text.drop ((text.takeWhile fun char => !isSep char).length + 1)
          = (text.takeWhile (fun char => !isSep char) ++ sep :: rest).drop
              ((text.takeWhile fun char => !isSep char).length + 1) := by rw [whole]
        _ = rest := by rw [List.drop_length_add_append, List.drop_succ_cons, List.drop_zero]
    rw [dropped, ← pieces_append_cons plain stop, whole]

end OpenGcl.Library
