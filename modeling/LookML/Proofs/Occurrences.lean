import LookML.Layout
import LookML.Proofs.Blank

/-!
# Parts of a text in their order

Texts that occur in a text one after another stay there when blanks around the text go, as
long as they begin and end with no blank.  They also stay when runs of empty lines are reduced
to one, as long as they begin with no blank and hold no such run.
-/

namespace LookML.Text

open List

/-- Texts that occur in a text one after another. -/
inductive InOrder : List Text → Text → Prop
  | nil (text : Text) : InOrder [] text
  | cons (gap part : Text) {parts : List Text} {rest : Text} (later : InOrder parts rest) :
      InOrder (part :: parts) (gap ++ (part ++ rest))

/-- A text that begins with a character that is no blank. -/
def Begun (text : Text) : Prop :=
  ∃ c rest, text = c :: rest ∧ isBlank c = false

/-- A text that neither begins nor ends with a blank, and is not empty. -/
structure Compact (text : Text) : Prop where
  begun : Begun text
  last : ∀ c ∈ text.getLast?, isBlank c = false

theorem Begun.ne_nil {text : Text} (begun : Begun text) : text ≠ [] := by
  obtain ⟨c, rest, rfl, -⟩ := begun
  exact cons_ne_nil c rest

theorem Begun.append {text : Text} (begun : Begun text) (tail : Text) : Begun (text ++ tail) := by
  obtain ⟨c, rest, rfl, solid⟩ := begun
  exact ⟨c, rest ++ tail, rfl, solid⟩

/-- The blanks at the end of a text. -/
def blankTail (text : Text) : Text :=
  text.drop (trimRight text).length

theorem trimRight_append_blankTail (text : Text) : trimRight text ++ blankTail text = text := by
  obtain ⟨tail, -, whole⟩ := exists_trimRight text
  exact prefix_iff_eq_append.mp ⟨tail, whole.symm⟩

theorem allBlank_blankTail (text : Text) : allBlank (blankTail text) = true := by
  obtain ⟨tail, blank, whole⟩ := exists_trimRight text
  have same := (trimRight_append_blankTail text).trans whole
  rw [append_cancel_left same, blank]

namespace InOrder

variable {parts more : List Text} {text other : Text}

theorem behind (lead : Text) (ordered : InOrder parts text) : InOrder parts (lead ++ text) := by
  cases ordered with
  | nil => exact .nil _
  | cons gap part later =>
    rw [← append_assoc]
    exact .cons (lead ++ gap) part later

theorem append (first : InOrder parts text) (second : InOrder more other) :
    InOrder (parts ++ more) (text ++ other) := by
  induction first with
  | nil text => exact second.behind text
  | cons gap part _ ih =>
    rw [append_assoc, append_assoc]
    exact .cons gap part ih

theorem before (tail : Text) (ordered : InOrder parts text) : InOrder parts (text ++ tail) := by
  have whole := ordered.append (.nil tail)
  rwa [append_nil] at whole

theorem of_lead {lead : Text} (blank : allBlank lead = true)
    (begun : ∀ part ∈ parts, Begun part)
    (ordered : InOrder parts (lead ++ text)) : InOrder parts text := by
  generalize whole : lead ++ text = all at ordered
  cases ordered with
  | nil => exact .nil text
  | @cons gap part parts rest later =>
    rcases append_eq_append_iff.mp whole with ⟨more, rfl, rfl⟩ | ⟨more, rfl, split⟩
    · exact .cons more part later
    · -- The part begins within the blanks, so at their end.
      obtain ⟨c, inner, rfl, solid⟩ := begun part mem_cons_self
      cases more with
      | nil =>
        rw [nil_append] at split
        rw [← split]
        exact .cons [] _ later
      | cons d more =>
        obtain ⟨rfl, -⟩ := cons.inj split
        exact absurd (by simp) (not_mem_of_allBlank blank solid)

theorem of_tail {tail : Text} (blank : allBlank tail = true)
    (compact : ∀ part ∈ parts, Compact part)
    (ordered : InOrder parts (text ++ tail)) : InOrder parts text := by
  generalize whole : text ++ tail = all at ordered
  induction ordered generalizing text with
  | nil => exact .nil text
  | @cons gap part parts rest later ih =>
    have others := (forall_mem_cons.mp compact).2
    rw [← append_assoc] at whole
    rcases append_eq_append_iff.mp whole with ⟨more, split, behind⟩ | ⟨more, rfl, behind⟩
    · have solid := compact part mem_cons_self
      have ended : more = [] := by
        rw [behind, allBlank_append, Bool.and_eq_true] at blank
        apply eq_nil_of_solid_last blank.1
        rw [← split, getLast?_append_of_ne_nil _ solid.begun.ne_nil]
        exact solid.last
      subst ended
      rw [append_nil] at split
      have nothing : InOrder parts [] := ih others behind
      rw [← split, ← append_nil (gap ++ part), append_assoc]
      exact .cons gap part nothing
    · rw [append_assoc]
      exact .cons gap part (ih others behind.symm)

theorem trimLeft (begun : ∀ part ∈ parts, Begun part) (ordered : InOrder parts text) :
    InOrder parts (trimLeft text) := by
  obtain ⟨lead, blank, whole⟩ := exists_trimLeft text
  rw [whole] at ordered
  exact ordered.of_lead blank begun

theorem trimRight (compact : ∀ part ∈ parts, Compact part) (ordered : InOrder parts text) :
    InOrder parts (trimRight text) := by
  obtain ⟨tail, blank, whole⟩ := exists_trimRight text
  rw [whole] at ordered
  exact ordered.of_tail blank compact

/-- Of three line feeds in a row one can go, unless a part holds them all. -/
theorem of_three {lead : Text} (begun : ∀ part ∈ parts, Begun part)
    (close : ∀ part ∈ parts, ¬ ['\n', '\n', '\n'] <:+: part)
    (ordered : InOrder parts (lead ++ '\n' :: '\n' :: '\n' :: text)) :
    InOrder parts (lead ++ '\n' :: '\n' :: text) := by
  generalize whole : lead ++ '\n' :: '\n' :: '\n' :: text = all at ordered
  induction ordered generalizing lead with
  | nil => exact .nil _
  | @cons gap part parts rest later ih =>
    obtain ⟨here, others⟩ := forall_mem_cons.mp begun
    have behind {lead : Text} (split : lead ++ '\n' :: '\n' :: '\n' :: text = rest) :=
      ih others (forall_mem_cons.mp close).2 split
    rcases append_eq_append_iff.mp whole with ⟨more, rfl, split⟩ | ⟨more, rfl, split⟩
    · -- The part begins behind the line feeds: it cannot begin with one of them.
      obtain ⟨c, inner, rfl, solid⟩ := here
      have first : c ≠ '\n' := by
        rintro rfl
        cases solid
      rcases more with - | ⟨a, - | ⟨b, - | ⟨d, more⟩⟩⟩
      · simp only [nil_append, cons_append, List.cons.injEq] at split
        exact absurd split.1.symm first
      · simp only [nil_append, cons_append, List.cons.injEq] at split
        exact absurd split.2.1.symm first
      · simp only [nil_append, cons_append, List.cons.injEq] at split
        exact absurd split.2.2.1.symm first
      · simp only [cons_append, List.cons.injEq] at split
        obtain ⟨rfl, rfl, rfl, rfl⟩ := split
        have shorter := cons (lead ++ '\n' :: '\n' :: more) (c :: inner) later
        rwa [append_assoc] at shorter
    · rcases append_eq_append_iff.mp split with ⟨inner, rfl, cut⟩ | ⟨inner, rfl, cut⟩
      · rw [append_assoc, append_assoc]
        exact .cons gap part (behind cut.symm)
      · -- The part begins before the line feeds: what it leaves of them is behind it.
        have fewer {feeds rest : Text} (blank : allBlank feeds = true)
            (later : InOrder parts (feeds ++ rest)) := later.of_lead blank others
        rcases inner with - | ⟨a, - | ⟨b, - | ⟨d, inner⟩⟩⟩
        · have rest_ : rest = '\n' :: '\n' :: '\n' :: text := cut.symm
          have shorter := cons gap more (@behind [] rest_.symm)
          rw [append_nil, append_assoc]
          exact shorter
        · simp only [nil_append, cons_append, List.cons.injEq] at cut
          obtain ⟨rfl, rfl⟩ := cut
          have shorter := cons gap (more ++ ['\n']) (@fewer ['\n'] ('\n' :: text) rfl later)
          simpa using shorter
        · simp only [nil_append, cons_append, List.cons.injEq] at cut
          obtain ⟨rfl, rfl, rfl⟩ := cut
          have shorter := cons gap (more ++ ['\n', '\n']) (@fewer ['\n'] text rfl later)
          simpa using shorter
        · simp only [cons_append, List.cons.injEq] at cut
          obtain ⟨rfl, rfl, rfl, -⟩ := cut
          refine absurd ?_ (close _ mem_cons_self)
          exact ⟨more, inner, by simp⟩

end InOrder

/-- Lines, each behind a line feed. -/
def feedLines (lines : List Text) : Text :=
  lines.flatMap ('\n' :: ·)

@[simp] theorem feedLines_nil : feedLines [] = [] := rfl

@[simp] theorem feedLines_cons (line : Text) (lines : List Text) :
    feedLines (line :: lines) = '\n' :: (line ++ feedLines lines) :=
  rfl

theorem feedLines_append (lines more : List Text) :
    feedLines (lines ++ more) = feedLines lines ++ feedLines more :=
  flatMap_append

theorem joinLines_cons (line : Text) (lines : List Text) :
    joinLines (line :: lines) = line ++ feedLines lines := by
  induction lines generalizing line with
  | nil => simp [joinLines, joinWith]
  | cons next lines ih =>
    have later := ih next
    simp only [joinLines, joinWith, intercalate_cons_cons] at later ⊢
    rw [later, feedLines_cons]
    simp

theorem joinLines_append_cons (lines behind : List Text) (line : Text) :
    joinLines (lines ++ line :: behind) =
      lines.flatMap (· ++ ['\n']) ++ (line ++ feedLines behind) := by
  induction lines with
  | nil => exact joinLines_cons line behind
  | cons first lines ih =>
    rw [cons_append, joinLines_cons, flatMap_cons, append_assoc, ← ih]
    cases lines with
    | nil => rw [nil_append, feedLines_cons, joinLines_cons]; simp
    | cons second lines => rw [cons_append, feedLines_cons, joinLines_cons]; simp

theorem forall_last_of_cons {property : Text → Prop} {line : Text} {lines : List Text}
    (known : ∀ last ∈ (line :: lines).getLast?, property last) :
    ∀ last ∈ lines.getLast?, property last := by
  cases lines with
  | nil => simp
  | cons next lines => exact known

/-- Parts that hold no two empty lines in a row are found again when runs of empty lines
are reduced to one. -/
theorem InOrder.collapseFrom {parts : List Text} (begun : ∀ part ∈ parts, Begun part)
    (close : ∀ part ∈ parts, ¬ ['\n', '\n', '\n'] <:+: part) {lead : Text}
    {lines : List Text} (filled : ∀ last ∈ lines.getLast?, last ≠ [])
    (gap : Bool) (waits : lines = [] → gap = false)
    (ordered : InOrder parts (lead ++ feedLines ((if gap then [[]] else []) ++ lines))) :
    InOrder parts (lead ++ feedLines (Layout.collapseFrom true gap lines)) := by
  induction lines generalizing lead gap with
  | nil =>
    rw [waits rfl] at ordered ⊢
    exact ordered
  | cons line lines ih =>
    have later (lead : Text) := @ih lead (forall_last_of_cons filled)
    cases line with
    | nil =>
      cases lines with
      | nil => exact absurd rfl (filled [] rfl)
      | cons next lines =>
        rw [Layout.collapseFrom, isEmpty_nil, if_pos rfl]
        refine later lead true nofun ?_
        cases gap with
        | false => exact ordered
        | true => exact ordered.of_three begun close
    | cons c line =>
      rw [Layout.collapseFrom, isEmpty_cons, if_neg Bool.false_ne_true]
      cases gap with
      | false =>
        have shown :=
          later (lead ++ '\n' :: c :: line) false (fun _ => rfl) (by simpa using ordered)
        simpa using shown
      | true =>
        have shown := later (lead ++ '\n' :: '\n' :: c :: line) false (fun _ => rfl)
          (by simpa using ordered)
        simpa using shown

end LookML.Text
