import Mathlib.Data.List.Infix
import Mathlib.Tactic.Common

/-! Codes whose words can be told apart where one follows the other in a text. -/

set_option autoImplicit false

namespace OpenGcl.Library

variable {Message Symbol : Type}

/-- The text after a word says nothing about which word it was. -/
structure PrefixCode (Message Symbol : Type) where
  encode : Message → List Symbol
  nonempty : ∀ message, encode message ≠ []
  separable : ∀ message other rest more,
    encode message ++ rest = encode other ++ more → message = other

namespace PrefixCode

variable (code : PrefixCode Message Symbol) {messages others : List Message} {part : List Symbol}

def text (messages : List Message) : List Symbol := messages.flatMap code.encode

@[simp] theorem text_nil : code.text [] = [] := rfl

@[simp] theorem text_cons (message : Message) (rest : List Message) :
    code.text (message :: rest) = code.encode message ++ code.text rest :=
  List.flatMap_cons

@[simp] theorem text_append (first second : List Message) :
    code.text (first ++ second) = code.text first ++ code.text second :=
  List.flatMap_append

theorem prefix_of_text (early : code.text messages <+: code.text others) : messages <+: others := by
  induction messages generalizing others with
  | nil => exact List.nil_prefix
  | cons message rest ih =>
    obtain ⟨tail, whole⟩ := early
    cases others with
    | nil =>
      rw [text_cons, text_nil, List.append_assoc, List.append_eq_nil_iff] at whole
      exact absurd whole.1 (code.nonempty message)
    | cons other more =>
      rw [text_cons, text_cons, List.append_assoc] at whole
      obtain rfl := code.separable _ _ _ _ whole
      have behind := List.append_cancel_left whole
      exact List.cons_prefix_cons.mpr ⟨rfl, ih ⟨tail, behind⟩⟩

theorem next_of_text (early : code.text messages ++ part <+: code.text others)
    (some_ : part ≠ []) :
    ∃ message, messages ++ [message] <+: others ∧
      (part <+: code.encode message ∨ code.encode message <+: part) := by
  obtain ⟨rest, whole⟩ := code.prefix_of_text ((List.prefix_append _ _).trans early)
  subst whole
  rw [text_append, List.prefix_append_right_inj] at early
  cases rest with
  | nil => exact absurd (List.prefix_nil.mp early) some_
  | cons message rest =>
    refine ⟨message, ⟨rest, by simp⟩, ?_⟩
    exact List.prefix_or_prefix_of_prefix early (by simp)

end PrefixCode

end OpenGcl.Library
