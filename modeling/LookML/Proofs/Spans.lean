import LookML.Lint.Reference
import LookML.Proofs.Blank
import LookML.Proofs.Cuts
import LookML.Proofs.Rewriting

/-!
# Spans

A span runs from an opener through the next closer.  Spans are blanked out from left to right.
Two texts one behind the other are blanked out each on its own, unless an opener is left in the
first one and a closer stands in the second.
-/

namespace LookML.Lint

open Text Code List

section Spans

variable {text : Text} {c : Char}

variable {opener closer : Text}

/-- What is blanked out. -/
def spans (opener closer : Text) (_ : Option Char) (text : Text) : Option (Text × Nat) :=
  (spanAt? opener closer text).map fun taken => ([' '], taken)

theorem spanAt?_eq_some_iff {taken : Nat} :
    spanAt? opener closer text = some taken ↔ ∃ body rest,
      text = opener ++ (body ++ (closer ++ rest)) ∧
      FirstCut closer (body ++ (closer ++ rest)) body rest ∧
      taken = opener.length + body.length + closer.length := by
  simp only [spanAt?, Option.bind_eq_bind, Option.bind_eq_some_iff, after?_eq_some_iff,
    Prod.exists, cut?_eq_some_iff, Option.some.injEq]
  constructor
  · rintro ⟨inner, rfl, body, rest, cut, rfl⟩
    obtain rfl := cut.text_eq
    exact ⟨body, rest, rfl, cut, rfl⟩
  · rintro ⟨body, rest, rfl, cut, rfl⟩
    exact ⟨_, rfl, body, rest, cut, rfl⟩

theorem spanAt?_eq_none_iff :
    spanAt? opener closer text = none ↔ ∀ rest, text = opener ++ rest → ¬ closer <:+: rest := by
  simp only [spanAt?, Option.bind_eq_bind, Option.bind_eq_none_iff, after?_eq_some_iff]
  refine forall_congr' fun rest => imp_congr_right fun _ => ?_
  constructor
  · rintro absent ⟨lead, tail, rfl⟩
    obtain ⟨before, behind, found⟩ := exists_cut? (append_assoc lead closer tail)
    exact absurd (absent _ found) (by simp)
  · intro absent cut found
    refine absurd ⟨cut.1, cut.2, ?_⟩ absent
    rw [append_assoc]
    exact (firstCut_of_cut? found).text_eq.symm

/-- A span is read as it is whatever follows its text. -/
theorem spanAt?_append {taken : Nat} (found : spanAt? opener closer text = some taken)
    (more : Text) : spanAt? opener closer (text ++ more) = some taken := by
  obtain ⟨body, rest, rfl, cut, rfl⟩ := spanAt?_eq_some_iff.mp found
  refine spanAt?_eq_some_iff.mpr ⟨body, rest ++ more, by simp, ⟨rfl, ?_⟩, rfl⟩
  intro lead tail same
  -- A closer further to the front would lie in the text itself.
  by_contra less
  have front : lead ++ closer <+: body ++ (closer ++ (rest ++ more)) := ⟨tail, by simp [same]⟩
  have span : body ++ closer <+: body ++ (closer ++ (rest ++ more)) := ⟨rest ++ more, by simp⟩
  obtain ⟨between, whole⟩ := prefix_of_prefix_length_le front span (by simp; omega)
  refine less (cut.first lead (between ++ rest) ?_)
  rw [← append_assoc, ← whole]
  simp

theorem progresses_spans (occupied : opener ≠ []) : Progresses (spans opener closer) := by
  intro before text replacement taken found
  obtain ⟨length, span, same⟩ := Option.map_eq_some_iff.mp found
  obtain ⟨-, rfl⟩ := Prod.mk.inj same
  obtain ⟨body, rest, rfl, -, rfl⟩ := spanAt?_eq_some_iff.mp span
  have positive := length_pos_iff.mpr occupied
  simp only [length_append]
  omega

theorem rewritten_blankSpans (occupied : opener ≠ []) (previous : Option Char) (text : Text) :
    Rewritten (spans opener closer) previous text (blankSpans opener closer text) :=
  (rewritten_substitute (progresses_spans occupied) text).change_before
    (show spans opener closer previous text = spans opener closer none text from rfl)

theorem blankSpans_eq (occupied : opener ≠ []) {previous : Option Char} {result : Text}
    (rewritten : Rewritten (spans opener closer) previous text result) :
    blankSpans opener closer text = result :=
  (rewritten_blankSpans occupied previous text).unique rewritten

theorem blankSpans_cons_of_none (occupied : opener ≠ [])
    (absent : spanAt? opener closer (c :: text) = none) :
    blankSpans opener closer (c :: text) = c :: blankSpans opener closer text := by
  have none_ : spans opener closer none (c :: text) = none := Option.map_eq_none_iff.mpr absent
  exact blankSpans_eq occupied (.plain none_ (rewritten_blankSpans occupied _ text))

theorem blankSpans_span (occupied : opener ≠ []) {body rest : Text}
    (cut : FirstCut closer (body ++ (closer ++ rest)) body rest) :
    blankSpans opener closer (opener ++ (body ++ (closer ++ rest))) =
      ' ' :: blankSpans opener closer rest := by
  have filled : opener ++ body ++ closer ≠ [] := by simp [occupied]
  have whole : opener ++ (body ++ (closer ++ rest)) = (opener ++ body ++ closer) ++ rest := by simp
  have present : spans opener closer none ((opener ++ body ++ closer) ++ rest) =
      some ([' '], (opener ++ body ++ closer).length) := by
    rw [← whole, spans, spanAt?_eq_some_iff.mpr ⟨body, rest, rfl, cut, rfl⟩]
    simp [Nat.add_assoc]
  rw [whole]
  exact blankSpans_eq occupied (.found filled present (rewritten_blankSpans occupied _ rest))

/-- Without a closer nothing is blanked out. -/
theorem blankSpans_of_closerless (occupied : opener ≠ [])
    (absent : ¬ closer <:+: text) : blankSpans opener closer text = text := by
  induction text with
  | nil => exact blankSpans_eq occupied (.nil none)
  | cons c text ih =>
    have none_ : spanAt? opener closer (c :: text) = none := by
      refine spanAt?_eq_none_iff.mpr fun rest whole inside => absent (inside.trans ?_)
      rw [whole]
      exact (suffix_append opener rest).isInfix
    rw [blankSpans_cons_of_none occupied none_,
      ih fun inside => absent (inside.trans (infix_cons infix_rfl))]

/-- Whether an opener is left once the spans of a text are blanked out. -/
def LeavesOpen (opener closer text : Text) : Prop :=
  opener <:+: blankSpans opener closer text

instance (opener closer text : Text) : Decidable (LeavesOpen opener closer text) :=
  inferInstanceAs (Decidable (_ <:+: _))

variable {first second : Char} {before after : Text}

/-- Where every span is closed, the text behind is read on its own. -/
theorem blankSpans_append_of_closed (closed : ¬ LeavesOpen [first, second] closer before)
    (apart : after.head? ≠ some second) :
    blankSpans [first, second] closer (before ++ after) =
      blankSpans [first, second] closer before ++ blankSpans [first, second] closer after := by
  have occupied : [first, second] ≠ [] := cons_ne_nil _ _
  have joined {previous : Option Char} {text result : Text}
      (rewritten : Rewritten (spans [first, second] closer) previous text result)
      (closed : ¬ [first, second] <:+: result) :
      Rewritten (spans [first, second] closer) previous (text ++ after)
        (result ++ blankSpans [first, second] closer after) := by
    induction rewritten with
    | nil previous => exact rewritten_blankSpans occupied previous after
    | @plain previous c text result absent rest ih =>
      refine .plain ?_ (ih fun inside => closed (inside.trans (infix_cons infix_rfl)))
      have none_ := spanAt?_eq_none_iff.mp (Option.map_eq_none_iff.mp absent)
      refine Option.map_eq_none_iff.mpr (spanAt?_eq_none_iff.mpr fun behind whole _ => ?_)
      obtain ⟨rfl, same⟩ := cons.inj whole
      rcases text with - | ⟨d, text⟩
      · exact apart (congrArg List.head? same)
      obtain ⟨rfl, -⟩ := cons.inj same
      -- An opener that is not closed is left.
      have closerless := none_ text rfl
      have kept : spanAt? [c, d] closer (d :: text) = none := by
        refine spanAt?_eq_none_iff.mpr fun rest again inside => closerless (inside.trans ?_)
        rw [(cons.inj again).2]
        exact infix_cons infix_rfl
      rw [← blankSpans_eq occupied rest, blankSpans_cons_of_none occupied kept] at closed
      exact closed ⟨[], _, rfl⟩
    | @found previous taken text replacement result filled present rest ih =>
      rw [append_assoc, append_assoc]
      refine .found filled ?_ (ih fun inside => closed (inside.trans ?_))
      · obtain ⟨length, span, same⟩ := Option.map_eq_some_iff.mp present
        rw [spans, ← append_assoc, spanAt?_append span after]
        exact congrArg some same
      · exact (suffix_append replacement result).isInfix
  exact blankSpans_eq occupied (joined (rewritten_blankSpans occupied none before) closed)

/-- No closer is put together by two texts of which the second begins with another character. -/
theorem not_infix_append {closer front rest : Text} (inFront : ¬ closer <:+: front)
    (inRest : ¬ closer <:+: rest) (apart : ∀ c ∈ rest.head?, c ∉ closer) :
    ¬ closer <:+: front ++ rest := by
  rintro ⟨lead, tail, whole⟩
  rcases append_eq_append_iff.mp whole with ⟨more, rfl, rfl⟩ | ⟨more, same, rfl⟩
  · exact inFront ⟨lead, more, rfl⟩
  · rcases append_eq_append_iff.mp same with ⟨between, rfl, rfl⟩ | ⟨between, rfl, rfl⟩
    · cases more with
      | nil => exact inFront ⟨lead, [], by simp⟩
      | cons c more => exact apart c rfl (by simp)
    · exact inRest ⟨between, tail, by simp⟩

/-- Where no closer follows, nothing more is blanked out. -/
theorem blankSpans_append_of_closerless (occupied : opener ≠ []) (absent : ¬ closer <:+: after)
    (apart : ∀ c ∈ after.head?, c ∉ closer) :
    blankSpans opener closer (before ++ after) = blankSpans opener closer before ++ after := by
  have joined {previous : Option Char} {text result : Text}
      (rewritten : Rewritten (spans opener closer) previous text result) :
      Rewritten (spans opener closer) previous (text ++ after) (result ++ after) := by
    induction rewritten with
    | nil previous =>
      nth_rewrite 2 [← blankSpans_of_closerless occupied absent]
      exact rewritten_blankSpans occupied previous after
    | @plain previous c text result none_ rest ih =>
      have closerless := spanAt?_eq_none_iff.mp (Option.map_eq_none_iff.mp none_)
      refine .plain (Option.map_eq_none_iff.mpr ?_) ih
      refine spanAt?_eq_none_iff.mpr fun behind whole => ?_
      change c :: text ++ after = opener ++ behind at whole
      rcases append_eq_append_iff.mp whole with
        ⟨more, -, rfl⟩ | ⟨more, inside, rfl⟩
      · exact fun closes => absent (closes.trans (suffix_append more behind).isInfix)
      · exact not_infix_append (closerless more inside) absent apart
    | @found previous taken text replacement result filled present rest ih =>
      rw [append_assoc, append_assoc]
      refine .found filled ?_ ih
      obtain ⟨length, span, same⟩ := Option.map_eq_some_iff.mp present
      rw [spans, ← append_assoc, spanAt?_append span after]
      exact congrArg some same
  exact blankSpans_eq occupied (joined (rewritten_blankSpans occupied none before))

theorem blankSpans_of_plain {word : Text} (plain : first ∉ word) :
    blankSpans [first, second] closer (word ++ after) =
      word ++ blankSpans [first, second] closer after := by
  induction word with
  | nil => rfl
  | cons c word ih =>
    obtain ⟨here, later⟩ := not_or.mp (mem_cons.not.mp plain)
    have none_ : spanAt? [first, second] closer (c :: (word ++ after)) = none :=
      spanAt?_eq_none_iff.mpr fun _ whole _ => here (cons.inj whole).1.symm
    rw [cons_append, blankSpans_cons_of_none (cons_ne_nil _ _) none_, ih later]
    rfl

/-- A word without marks keeps its place between texts that no span connects. -/
theorem blankSpans_around {word : Text}
    (apart : LeavesOpen [first, second] closer before → ¬ closer <:+: after)
    (marked : closer ≠ []) (occupied : word ≠ [])
    (plain : ∀ c ∈ word, c ∉ first :: second :: closer) :
    blankSpans [first, second] closer (before ++ (word ++ after)) =
      blankSpans [first, second] closer before ++
        (word ++ blankSpans [first, second] closer after) := by
  have head : ∀ c ∈ (word ++ after).head?, c ∈ word := by
    rw [head?_append_of_ne_nil _ occupied]
    exact fun c => mem_of_mem_head?
  by_cases left : LeavesOpen [first, second] closer before
  · have absent : ¬ closer <:+: word ++ after := by
      clear head occupied
      induction word with
      | nil => exact apart left
      | cons c word ih =>
        rw [cons_append, infix_cons_iff]
        rintro (⟨rest, same⟩ | later)
        · obtain ⟨d, closer, rfl⟩ := exists_cons_of_ne_nil marked
          obtain ⟨rfl, -⟩ := cons.inj same
          exact plain d (by simp) (by simp)
        · exact ih (forall_mem_cons.mp plain).2 later
    rw [blankSpans_append_of_closerless (cons_ne_nil _ _) absent,
      blankSpans_of_closerless (cons_ne_nil _ _) (apart left)]
    intro c member inside
    exact plain c (head c member) (by simp [inside])
  · rw [blankSpans_append_of_closed left, blankSpans_of_plain]
    · exact fun member => plain first member (by simp)
    · exact fun same => plain second (head second same) (by simp)

theorem blankSpans_nil (occupied : opener ≠ []) (closer : Text) :
    blankSpans opener closer [] = [] :=
  blankSpans_eq occupied (.nil none)

/-- The first character is kept, or a space takes the place of a span. -/
theorem blankSpans_cons (occupied : opener ≠ []) (closer : Text) (c : Char) (text : Text) :
    ∃ d rest, rest <:+ text ∧ (d = ' ' ∨ d = c ∧ rest = text) ∧
      blankSpans opener closer (c :: text) = d :: blankSpans opener closer rest := by
  cases span : spanAt? opener closer (c :: text) with
  | none =>
    exact ⟨c, text, suffix_refl text, .inr ⟨rfl, rfl⟩, blankSpans_cons_of_none occupied span⟩
  | some taken =>
    obtain ⟨body, rest, whole, cut, rfl⟩ := spanAt?_eq_some_iff.mp span
    refine ⟨' ', rest, ?_, .inl rfl, ?_⟩
    · obtain ⟨d, more, rfl⟩ := exists_cons_of_ne_nil occupied
      rw [(cons.inj whole).2]
      exact ⟨more ++ (body ++ closer), by simp⟩
    · rw [whole, blankSpans_span occupied cut]

theorem head_blankSpans (occupied : opener ≠ [])
    (member : c ∈ (blankSpans opener closer text).head?) : c = ' ' ∨ c ∈ text.head? := by
  cases text with
  | nil =>
    rw [blankSpans_nil occupied] at member
    cases member
  | cons d text =>
    obtain ⟨e, rest, -, kind, same⟩ := blankSpans_cons occupied closer d text
    rw [same] at member
    obtain rfl := Option.some.inj member
    exact kind.imp_right fun kept => congrArg some kept.1.symm

theorem last_blankSpans (occupied : opener ≠ [])
    (member : c ∈ (blankSpans opener closer text).getLast?) : c = ' ' ∨ c ∈ text.getLast? := by
  -- Behind a span the text goes on further back, so the induction is on its length.
  induction length : text.length using Nat.strong_induction_on generalizing text with
  | _ length_ ih =>
    cases text with
    | nil =>
      rw [blankSpans_nil occupied] at member
      cases member
    | cons d text =>
      obtain ⟨e, rest, ⟨lead, rfl⟩, kind, same⟩ := blankSpans_cons occupied closer d text
      rw [same, getLast?_cons] at member
      cases rest with
      | nil =>
        rw [blankSpans_nil occupied] at member
        refine kind.imp (fun blank => ?_) fun kept => ?_
        · exact (Option.some.inj member).symm.trans blank
        · obtain rfl : lead = [] := by simpa using kept.2.symm
          rw [← kept.1]
          exact member
      | cons f rest =>
        obtain ⟨g, more, -, -, again⟩ := blankSpans_cons occupied closer f rest
        have inside : c ∈ (blankSpans opener closer (f :: rest)).getLast? := by
          rw [again, getLast?_cons] at member ⊢
          exact member
        have shorter : (f :: rest).length < length_ := by
          simp only [length_cons, length_append] at length ⊢
          omega
        refine (ih _ shorter inside rfl).imp_right fun last => ?_
        rw [getLast?_cons, getLast?_append, Option.mem_def.mp last]
        rfl

/-- A path that ends at a place still does. -/
theorem ends_blankSpans (occupied : opener ≠ []) (closer : Text)
    (ends : text.head? = some '.' → ∀ c ∈ text.tail.head?, isIdentifierStart c = false) :
    (blankSpans opener closer text).head? = some '.' →
      ∀ c ∈ (blankSpans opener closer text).tail.head?, isIdentifierStart c = false := by
  intro dot c member
  cases text with
  | nil =>
    rw [blankSpans_nil occupied] at dot
    cases dot
  | cons d text =>
    obtain ⟨e, rest, -, kind, same⟩ := blankSpans_cons occupied closer d text
    rw [same] at dot member
    rcases kind with rfl | ⟨rfl, rfl⟩
    · cases dot
    · rcases head_blankSpans occupied member with rfl | inText
      · decide
      · exact ends dot c inText

end Spans

end LookML.Lint
