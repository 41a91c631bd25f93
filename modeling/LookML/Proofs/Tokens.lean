import LookML.Proofs.Spelling

/-!
# Lines of SQL and markup, token by token

The tokens of a line are its characters in order.  Spelling touches only the plain
text between atoms.
-/

namespace LookML.Sql

open Text List

/-- The characters of tokens, in order. -/
def written (tokens : List Token) : Text :=
  tokens.flatMap Token.content

@[simp] theorem written_nil : written [] = [] := rfl

@[simp] theorem written_cons (token : Token) (tokens : List Token) :
    written (token :: tokens) = token.content ++ written tokens :=
  flatMap_cons

@[simp] theorem written_consText (c : Char) (tokens : List Token) :
    written (Token.consText c tokens) = c :: written tokens := by
  rcases tokens with - | ⟨content | content, tokens⟩ <;> rfl

section Closers

variable {closer text body rest : Text}

theorem throughCloser?_eq_some_iff : throughCloser? closer text = some (body, rest) ↔
    closer ≠ lineEnd ∧ ∃ inner, inner ++ closer = body ∧ FirstCut closer text inner rest := by
  rw [throughCloser?]
  split
  next ends => simp [ends]
  next other => simp [other, cut?_eq_some_iff, and_comm]

theorem throughCloser?_eq_none_iff (other : closer ≠ lineEnd) :
    throughCloser? closer text = none ↔ cut? closer text = none := by
  rw [throughCloser?, if_neg other, Option.map_eq_none_iff]

theorem throughCloser?_eq_some (found : throughCloser? closer text = some (body, rest)) :
    text = body ++ rest := by
  obtain ⟨-, inner, rfl, cut⟩ := throughCloser?_eq_some_iff.mp found
  rw [cut.text_eq, append_assoc]

end Closers

theorem opening?_eq_some {delimiters : List Delimiter} {text : Text} {delimiter : Delimiter}
    (found : opening? delimiters text = some delimiter) :
    delimiter ∈ delimiters ∧ ∃ rest, text = delimiter.opener ++ rest := by
  refine ⟨mem_of_find?_eq_some found, ?_⟩
  have leads := find?_some found
  obtain ⟨rest, same⟩ := isPrefixOf_iff_prefix.mp leads
  exact ⟨rest, same.symm⟩

theorem opener_delimiters (markup : Bool) :
    ∀ delimiter ∈ delimiters markup, delimiter.opener ≠ [] := by
  cases markup <;> decide

@[simp] theorem written_scan (markup : Bool) (text : Text) :
    written (scan (delimiters markup) text).1 = text := by
  fun_induction scan (delimiters markup) text with
  | case1 => rfl
  | case2 c text absent scanned ih => rw [written_consText, ih]
  | case3 c text delimiter present open_ => simp [Token.content]
  | case4 c text delimiter present body rest closed scanned ih =>
    obtain ⟨member, tail, same⟩ := opening?_eq_some present
    obtain ⟨d, opener, shape⟩ :=
      exists_cons_of_ne_nil (opener_delimiters markup delimiter member)
    rw [shape, cons_append] at same
    obtain ⟨rfl, rfl⟩ := cons.inj same
    have behind := throughCloser?_eq_some closed
    simp only [shape, length_cons, Nat.add_sub_cancel, drop_left] at behind
    rw [written_cons, ih, Token.content, shape, append_assoc, ← behind, cons_append]

theorem written_tokenize (markup : Bool) (pending : Option Text) (line : Text) :
    written (tokenize markup pending line).1 = line := by
  unfold tokenize
  split
  · exact written_scan markup line
  · split
    · simp [Token.content]
    next closer body rest found =>
      rw [written_cons, written_scan, Token.content, ← throughCloser?_eq_some found]

end LookML.Sql
