import LookML.Lint.Action
import LookML.Proofs.BareReferences
import LookML.Proofs.Editing

/-!
# Where a reference is mentioned

A reference is searched for line by line, and found where it is no part of a longer word or
path.  A line of a segment adds a piece to the text of the segment.  Where the reference is
mentioned first on the lines it is mentioned first in that text, and another word written in its
place on the line stands in its place in the text.
-/

namespace LookML.Lint

open Text Code List

variable {front rest text line : Text} {previous : Option Char} {c : Char}

section Search

variable {α : Type}

/-- The first place in two texts is one in the first of them, or else one in the second. -/
theorem searchFrom_append {recognise : Option Char → Text → Option α}
    (previous : Option Char) (nothing : ∀ previous, recognise previous [] = none)
    (apart : ∀ last, last <:+ front → last ≠ [] → ∀ previous,
      recognise previous (last ++ rest) = recognise previous last) :
    searchFrom recognise previous (front ++ rest) =
      (searchFrom recognise previous front).or
        ((searchFrom recognise (front.getLast?.or previous) rest).map fun found =>
          (found.1 + front.length, found.2)) := by
  induction front generalizing previous with
  | nil =>
    rw [searchFrom, nothing]
    exact Option.map_id'.symm
  | cons c front ih =>
    have here := apart (c :: front) (suffix_refl _) (cons_ne_nil _ _) previous
    have later := ih (some c) fun last behind =>
      apart last (behind.trans (suffix_cons c front))
    rw [cons_append] at here ⊢
    rw [getLast?_cons_or, searchFrom, searchFrom, here, later]
    cases recognise previous (c :: front) with
    | some value => rfl
    | none =>
      dsimp only
      rw [Option.map_or, Option.map_map]
      rfl

theorem searchFrom_change {recognise : Option Char → Text → Option α} {other : Option Char}
    (same : recognise previous text = recognise other text) :
    searchFrom recognise previous text = searchFrom recognise other text := by
  cases text with
  | nil | cons c text => rw [searchFrom, searchFrom, same]

theorem exists_of_searchFrom {recognise : Option Char → Text → Option α}
    {position : Nat} {value : α}
    (found : searchFrom recognise previous text = some (position, value)) :
    ∃ before rest, text = before ++ rest ∧ before.length = position ∧
      recognise (before.getLast?.or previous) rest = some value := by
  induction text generalizing previous position with
  | nil =>
    obtain ⟨again, here, same⟩ := Option.map_eq_some_iff.mp found
    cases same
    exact ⟨[], [], rfl, rfl, here⟩
  | cons c text ih =>
    rw [searchFrom] at found
    split at found
    next here =>
      cases found
      exact ⟨[], c :: text, rfl, rfl, by assumption⟩
    next =>
      obtain ⟨⟨place, again⟩, later, same⟩ := Option.map_eq_some_iff.mp found
      cases same
      obtain ⟨before, rest, rfl, rfl, here⟩ := ih later
      refine ⟨c :: before, rest, rfl, rfl, ?_⟩
      rw [getLast?_cons]
      cases last : before.getLast? <;> rw [last] at here <;> exact here

end Search

section Mentions

/-- The characters behind which a reference is not looked for. -/
def isBound (c : Char) : Bool :=
  isWord c || c == '.' || c == '{'

/-- A reference at a place, not part of a longer word or path. -/
def mentionAt? (reference : Text) (previous : Option Char) (rest : Text) : Option Unit :=
  if previous.any isBound then none
  else
    (after? reference rest).bind fun tail => if tail.head?.any isWord then none else some ()

variable {reference : Text}

theorem mentionAt?_eq_some_iff :
    mentionAt? reference previous rest = some () ↔ (∀ c ∈ previous, isBound c = false) ∧
      ∃ tail, rest = reference ++ tail ∧ ∀ c ∈ tail.head?, isWord c = false := by
  have any_iff {test : Char → Bool} {c : Option Char} :
      c.any test = false ↔ ∀ d ∈ c, test d = false := by
    cases c <;> simp
  rw [mentionAt?]
  constructor
  · intro found
    split at found
    next => cases found
    next free =>
      obtain ⟨tail, follows, ended⟩ := Option.bind_eq_some_iff.mp found
      refine ⟨any_iff.mp (by simpa using free), tail, after?_eq_some_iff.mp follows, ?_⟩
      split at ended
      next => cases ended
      next ends => exact any_iff.mp (by simpa using ends)
  · rintro ⟨free, tail, whole, ends⟩
    rw [if_neg (by simp [any_iff.mpr free])]
    refine Option.bind_eq_some_iff.mpr ⟨tail, after?_eq_some_iff.mpr whole, ?_⟩
    rw [if_neg (by simp [any_iff.mpr ends])]

/-- A reference that is found stands at the place, between characters of no word. -/
theorem exists_of_referenceIn? {position : Nat}
    (found : referenceIn? reference line = some position) :
    ∃ before after, line = before ++ (reference ++ after) ∧ before.length = position ∧
      (∀ c ∈ before.getLast?, isBound c = false) ∧ ∀ c ∈ after.head?, isWord c = false := by
  obtain ⟨⟨place, value⟩, searched, same⟩ := Option.map_eq_some_iff.mp found
  cases same
  obtain ⟨before, rest, rfl, length, here⟩ := exists_of_searchFrom searched
  obtain ⟨free, after, rfl, ends⟩ := mentionAt?_eq_some_iff.mp here
  rw [Option.or_none] at free
  exact ⟨before, after, rfl, length, free, ends⟩

theorem isPathChar_of_not_isBound (free : isBound c = false) : Sql.isPathChar c = false := by
  rw [isBound, Bool.or_eq_false_iff] at free
  exact free.1

theorem isWord_of_not_isPathChar (apart : Sql.isPathChar c = false) : isWord c = false := by
  rw [Sql.isPathChar, Bool.or_eq_false_iff] at apart
  exact apart.1

/-- Texts between which no path goes on and no mention is prevented. -/
def Seam (front rest : Text) : Prop :=
  (∀ c ∈ front.getLast?, isBound c = false) ∨ ∀ c ∈ rest.head?, Sql.isPathChar c = false

theorem Seam.of_suffix {last : Text} (seam : Seam front rest) (behind : last <:+ front)
    (occupied : last ≠ []) : Seam last rest := by
  refine seam.imp_left fun free c final => free c ?_
  obtain ⟨lead, rfl⟩ := behind
  rwa [getLast?_append_of_ne_nil _ occupied]

variable (isReference : IsReference reference)
include isReference

theorem mentionAt?_nil (previous : Option Char) : mentionAt? reference previous [] = none := by
  rw [Option.eq_none_iff_forall_ne_some]
  intro value found
  obtain ⟨-, tail, whole, -⟩ := mentionAt?_eq_some_iff.mp found
  exact isReference.ne_nil (append_eq_nil_iff.mp whole.symm).1

/-- A reference does not go on across a seam. -/
theorem Seam.not_isPathChar (seam : Seam front rest) (occupied : front ≠ [])
    {more tail : Text} (inFront : reference = front ++ more) (inRest : rest = more ++ tail) :
    more = [] ∧ ∀ c ∈ rest.head?, isWord c = false := by
  rcases seam with free | apart
  · have path := isReference.isPathChar
      (show front.getLast occupied ∈ reference by rw [inFront]; simp)
    rw [isPathChar_of_not_isBound (free _ (getLast?_eq_some_getLast occupied))] at path
    cases path
  · refine ⟨?_, fun c head => isWord_of_not_isPathChar (apart c head)⟩
    cases more with
    | nil => rfl
    | cons c more =>
      have path := isReference.isPathChar (show c ∈ reference by rw [inFront]; simp)
      rw [apart c (by rw [inRest]; rfl)] at path
      cases path

/-- Mentions in front of a seam do not look beyond it. -/
theorem mentionAt?_append {last : Text} (occupied : last ≠ []) (seam : Seam last rest)
    (previous : Option Char) :
    mentionAt? reference previous (last ++ rest) = mentionAt? reference previous last := by
  apply Option.ext
  intro value
  rw [mentionAt?_eq_some_iff, mentionAt?_eq_some_iff]
  refine and_congr_right fun _ => ⟨?_, ?_⟩
  · rintro ⟨tail, whole, ends⟩
    rcases append_eq_append_iff.mp whole with ⟨more, inLast, inRest⟩ | ⟨more, rfl, rfl⟩
    · obtain ⟨rfl, -⟩ := seam.not_isPathChar isReference occupied inLast inRest
      exact ⟨[], by simpa using inLast.symm, by simp⟩
    · refine ⟨more, rfl, fun c head => ends c ?_⟩
      cases more with
      | nil => cases head
      | cons d more => exact head
  · rintro ⟨tail, rfl, ends⟩
    refine ⟨tail ++ rest, append_assoc _ _ _, ?_⟩
    cases tail with
    | nil =>
      have whole : reference = (reference ++ []) ++ [] := by simp
      exact (seam.not_isPathChar isReference occupied whole (nil_append rest).symm).2
    | cons d tail => exact ends

/-- A reference in two texts with a seam is mentioned first in one of them, or in the other. -/
theorem referenceIn?_append (seam : Seam front rest) :
    referenceIn? reference (front ++ rest) =
      (referenceIn? reference front).or
        ((referenceIn? reference rest).map (· + front.length)) := by
  have searched : searchFrom (mentionAt? reference) none (front ++ rest) = _ :=
    searchFrom_append none (mentionAt?_nil isReference) fun last behind occupied =>
      mentionAt?_append isReference occupied (seam.of_suffix behind occupied)
  have anew : searchFrom (mentionAt? reference) (front.getLast?.or none) rest =
      searchFrom (mentionAt? reference) none rest := by
    refine searchFrom_change (Option.ext fun value => ?_)
    rw [mentionAt?_eq_some_iff, mentionAt?_eq_some_iff, Option.or_none]
    refine and_congr_left fun ⟨tail, whole, _⟩ => ⟨fun _ => by simp, fun _ => ?_⟩
    rcases seam with free | apart
    · exact free
    · obtain ⟨c, more, rfl⟩ := exists_cons_of_ne_nil isReference.ne_nil
      have path := isReference.isPathChar mem_cons_self
      rw [apart c (by rw [whole]; rfl)] at path
      cases path
  rw [anew] at searched
  have same (line : Text) : referenceIn? reference line =
      (searchFrom (mentionAt? reference) none line).map (·.1) := rfl
  rw [same, same, same, searched, Option.map_or, Option.map_map, Option.map_map]
  rfl

theorem referenceIn?_of_dotless (dotless : '.' ∉ line) : referenceIn? reference line = none := by
  rw [Option.eq_none_iff_forall_ne_some]
  intro position found
  obtain ⟨before, after, rfl, -⟩ := exists_of_referenceIn? found
  exact dotless (by simp [isReference.mem_dot])

/-- Dotless texts around a piece, with seams, mention no reference. -/
theorem referenceIn?_around {lead piece tail : Text} (dotless : '.' ∉ lead ∧ '.' ∉ tail)
    (begins : ∀ c ∈ lead.getLast?, isBound c = false)
    (ends : ∀ c ∈ tail.head?, Sql.isPathChar c = false) :
    referenceIn? reference (lead ++ (piece ++ tail)) =
      (referenceIn? reference piece).map (· + lead.length) := by
  rw [referenceIn?_append isReference (.inl begins), referenceIn?_append isReference (.inr ends),
    referenceIn?_of_dotless isReference dotless.1, referenceIn?_of_dotless isReference dotless.2]
  simp

end Mentions

section Pieces

variable {word after : Text}

variable {reference : Text} (isReference : IsReference reference)

/-- A word that stays where it is when the text around it is trimmed. -/
structure Solid (word : Text) : Prop where
  occupied : word ≠ []
  trimmed : Trimmed word
  plain : ';' ∉ word
  single : '\n' ∉ word
  slashless : word.head? ≠ some '/'

theorem Solid.of_forall (occupied : word ≠ [])
    (kept : ∀ c ∈ word, isBlank c = false ∧ c ≠ ';' ∧ c ≠ '/') : Solid word where
  occupied := occupied
  trimmed :=
    ⟨fun c head => (kept c (mem_of_head? head)).1,
      fun c last => (kept c (mem_of_getLast? last)).1⟩
  plain member := (kept _ member).2.1 rfl
  single member := absurd (kept _ member).1 (by decide)
  slashless head := (kept _ (mem_of_head? head)).2.2 rfl

theorem kept_of_isPathChar (path : Sql.isPathChar c = true) :
    isBlank c = false ∧ c ≠ ';' ∧ c ≠ '/' := by
  refine ⟨Bool.eq_false_iff.mpr fun blank => ?_, ?_, ?_⟩
  · have each : ∀ c ∈ blanks, Sql.isPathChar c = false := by decide +kernel
    rw [each c (mem_blanks blank)] at path
    cases path
  all_goals
    rintro rfl
    exact absurd path (by decide +kernel)

include isReference in
theorem IsReference.solid : Solid reference :=
  .of_forall isReference.ne_nil fun _ member =>
    kept_of_isPathChar (isReference.isPathChar member)

include isReference in
theorem IsReference.solid_substitution : Solid (substitution reference) := by
  refine .of_forall (cons_ne_nil _ _) fun c member => ?_
  simp only [substitution, mem_cons, mem_append, not_mem_nil, or_false] at member
  rcases member with rfl | rfl | member | rfl
  · decide
  · decide
  · exact kept_of_isPathChar (isReference.isPathChar member)
  · decide

theorem Solid.trim_append (solid : Solid word) (before after : Text) :
    trim (before ++ (word ++ after)) = trimLeft before ++ (word ++ trimRight after) := by
  obtain ⟨c, more, rfl⟩ := exists_cons_of_ne_nil solid.occupied
  rw [trim, cons_append, trimLeft_append_of_solid (solid.trimmed.head c rfl),
    ← cons_append, ← append_assoc, trimRight_append_of_last, append_assoc]
  intro d final
  rw [getLast?_append_of_ne_nil _ (cons_ne_nil _ _)] at final
  exact solid.trimmed.last d final

/-- What is left of the text behind a word when the terminator is taken off. -/
def unended (after : Text) : Text :=
  trimRight ((before? terminator (trimRight after)).getD (trimRight after))

theorem Solid.endsSegment_append (solid : Solid word) (before after : Text) :
    endsSegment (before ++ (word ++ after)) = endsSegment after := by
  have last : (before ++ word).getLast? ≠ some ';' := by
    rw [getLast?_append_of_ne_nil _ solid.occupied]
    exact fun final => solid.plain (mem_of_getLast? final)
  rw [← append_assoc]
  cases after with
  | cons c after => exact Code.endsSegment_append (cons_ne_nil _ _) last
  | nil =>
    rw [append_nil]
    refine Bool.eq_false_iff.mpr fun ended => last ?_
    obtain ⟨lead, same⟩ := isSuffixOf_iff_suffix.mp ended
    rw [← same, getLast?_append]
    rfl

theorem before?_terminator (text : Text) :
    (before? terminator text = none ∧ endsSegment text = false) ∨
      ∃ lead, before? terminator text = some lead ∧ text = lead ++ terminator := by
  cases found : before? terminator text with
  | some lead => exact .inr ⟨lead, rfl, before?_eq_some_iff.mp found⟩
  | none =>
    refine .inl ⟨rfl, Bool.eq_false_iff.mpr fun ended => ?_⟩
    rw [before?, if_pos (show terminator.isSuffixOf text = true from ended)] at found
    cases found

theorem Solid.stripTerminator_append (solid : Solid word) (before after : Text) :
    stripTerminator (before ++ (word ++ after)) = trimLeft before ++ (word ++ unended after) := by
  rw [stripTerminator, unended, solid.trim_append]
  rcases before?_terminator (trimRight after) with ⟨none_, open_⟩ | ⟨lead, found, same⟩
  · have absent : before? terminator (trimLeft before ++ (word ++ trimRight after)) = none := by
      rcases before?_terminator (trimLeft before ++ (word ++ trimRight after)) with
        ⟨absent, -⟩ | ⟨lead, -, same⟩
      · exact absent
      · have ended : endsSegment (trimLeft before ++ (word ++ trimRight after)) = true := by
          rw [same]
          exact isSuffixOf_iff_suffix.mpr (suffix_append _ _)
        rw [solid.endsSegment_append, open_] at ended
        cases ended
    rw [absent, none_, Option.getD_none, Option.getD_none, solid.trim_append,
      trimLeft_trimLeft]
  · have cut : before? terminator (trimLeft before ++ (word ++ trimRight after)) =
        some (trimLeft before ++ (word ++ lead)) := by
      refine before?_eq_some_iff.mpr ?_
      rw [same]
      simp
    rw [cut, found, Option.getD_some, Option.getD_some, solid.trim_append,
      trimLeft_trimLeft]

theorem isBound_of_isBlank (blank : isBlank c = true) : isBound c = false := by
  have each : ∀ c ∈ blanks, isBound c = false := by decide +kernel
  exact each c (mem_blanks blank)

/-- Characters that may stand around a piece: blanks, and behind it those of the terminator. -/
def Margin (text : Text) : Prop :=
  ∀ c ∈ text, isBlank c = true ∨ c = ';'

theorem Margin.of_allBlank (blank : allBlank text = true) : Margin text :=
  fun c member => .inl (allBlank_iff.mp blank c member)

theorem Margin.append {first second : Text} (before : Margin first) (behind : Margin second) :
    Margin (first ++ second) :=
  forall_mem_append.mpr ⟨before, behind⟩

theorem Margin.isBound (margin : Margin text) (member : c ∈ text) : isBound c = false := by
  rcases margin c member with blank | rfl
  · exact isBound_of_isBlank blank
  · decide

theorem Margin.dotless (margin : Margin text) : '.' ∉ text := by
  exact fun member => absurd (margin.isBound member) (by decide)

theorem exists_unended (after : Text) : ∃ tail, Margin tail ∧ after = unended after ++ tail := by
  obtain ⟨outer, outerBlank, whole⟩ := exists_trimRight after
  rw [unended]
  rcases before?_terminator (trimRight after) with ⟨none_, -⟩ | ⟨lead, found, same⟩
  · rw [none_, Option.getD_none, trimRight_trimRight]
    exact ⟨outer, .of_allBlank outerBlank, whole⟩
  · obtain ⟨inner, innerBlank, cut⟩ := exists_trimRight lead
    rw [found, Option.getD_some]
    refine ⟨inner ++ (terminator ++ outer), ?_, ?_⟩
    · exact .append (.of_allBlank innerBlank) (.append (by simp [Margin, terminator])
        (.of_allBlank outerBlank))
    · calc after = lead ++ terminator ++ outer := by rw [← same, ← whole]
        _ = _ := by rw [← append_assoc, ← cut, append_assoc]

theorem exists_stripTerminator (text : Text) :
    ∃ lead tail, allBlank lead = true ∧ Margin tail ∧
      text = lead ++ (stripTerminator text ++ tail) := by
  obtain ⟨lead, tail, leadBlank, tailBlank, whole⟩ := exists_trim text
  rw [stripTerminator]
  rcases before?_terminator (trim text) with ⟨none_, -⟩ | ⟨inside, found, same⟩
  · rw [none_, Option.getD_none, trim_trim]
    exact ⟨lead, tail, leadBlank, .of_allBlank tailBlank, by rw [← append_assoc, ← whole]⟩
  · obtain ⟨innerLead, innerTail, innerLeadBlank, innerTailBlank, cut⟩ := exists_trim inside
    rw [found, Option.getD_some]
    refine ⟨lead ++ innerLead, innerTail ++ (terminator ++ tail), ?_, ?_, ?_⟩
    · rw [allBlank_append, leadBlank, innerLeadBlank]
      rfl
    · exact .append (.of_allBlank innerTailBlank) (.append (by simp [Margin, terminator])
        (.of_allBlank tailBlank))
    · calc text = lead ++ (inside ++ terminator) ++ tail := by rw [← same, ← whole]
        _ = _ := by
            nth_rewrite 1 [cut]
            simp only [append_assoc]

section Found

variable {before lead inside tail : Text}

/-- Of a text, only a margin behind it and a dotless start are taken off. -/
structure Framed (lead tail : Text) : Prop where
  dotless : '.' ∉ lead
  begins : ∀ c ∈ lead.getLast?, isBound c = false
  margin : Margin tail

theorem Framed.of_allBlank (blank : allBlank lead = true) (margin : Margin tail) :
    Framed lead tail where
  dotless := (Margin.of_allBlank blank).dotless
  begins := fun _ last => (Margin.of_allBlank blank).isBound (mem_of_getLast? last)
  margin := margin

theorem Framed.append {outer beyond : Text} (around : Framed outer beyond)
    (framed : Framed lead tail) : Framed (outer ++ lead) (tail ++ beyond) where
  dotless := by
    rw [mem_append, not_or]
    exact ⟨around.dotless, framed.dotless⟩
  begins := last_append around.begins framed.begins
  margin := framed.margin.append around.margin

include isReference

theorem Framed.referenceIn? (framed : Framed lead tail) (piece : Text) :
    referenceIn? reference (lead ++ (piece ++ tail)) =
      (referenceIn? reference piece).map (· + lead.length) := by
  refine referenceIn?_around isReference ⟨framed.dotless, framed.margin.dotless⟩ framed.begins ?_
  exact fun c head =>
    isPathChar_of_not_isBound (framed.margin.isBound (mem_of_head? head))

/-- The place of a mention, without what is taken off around it. -/
theorem Framed.referenceIn?_place (framed : Framed lead tail)
    (found : Lint.referenceIn? reference
      ((lead ++ inside) ++ (reference ++ (rest ++ tail))) = some (lead ++ inside).length) :
    Lint.referenceIn? reference (inside ++ (reference ++ rest)) = some inside.length := by
  have same : (lead ++ inside) ++ (reference ++ (rest ++ tail)) =
      lead ++ ((inside ++ (reference ++ rest)) ++ tail) := by simp
  rw [same, framed.referenceIn? isReference, length_append, Option.map_eq_some_iff] at found
  obtain ⟨place, isPlace, sum⟩ := found
  rw [isPlace]
  congr 1
  omega

theorem referenceIn?_place_trim
    (found : referenceIn? reference (before ++ (reference ++ after)) = some before.length) :
    referenceIn? reference (trimLeft before ++ (reference ++ trimRight after)) =
      some (trimLeft before).length := by
  obtain ⟨lead, leadBlank, left⟩ := exists_trimLeft before
  obtain ⟨tail, tailBlank, right⟩ := exists_trimRight after
  apply (Framed.of_allBlank leadBlank (.of_allBlank tailBlank)).referenceIn?_place isReference
  rwa [← left, ← right]

theorem referenceIn?_trim (quiet : referenceIn? reference line = none) :
    referenceIn? reference (trim line) = none := by
  obtain ⟨lead, tail, leadBlank, tailBlank, whole⟩ := exists_trim line
  rw [whole, append_assoc,
    (Framed.of_allBlank leadBlank (.of_allBlank tailBlank)).referenceIn? isReference] at quiet
  exact Option.map_eq_none_iff.mp quiet

end Found

theorem framed_of_isKeyed {lead space key : Text} (keyed : IsKeyed lead key)
    (spaced : allBlank space = true) : Framed (lead ++ space) [] where
  margin := fun _ member => nomatch member
  dotless := by
    rw [mem_append, not_or]
    exact ⟨keyed.not_mem rfl (by decide) (by decide), not_mem_of_allBlank spaced rfl⟩
  begins := by
    refine last_append (fun c last => ?_) fun c last =>
      isBound_of_isBlank (allBlank_iff.mp spaced c (mem_of_getLast? last))
    cases keyed.last.symm.trans last
    decide

include isReference

/-- A reference does not reach into a dotless text that a seam ends. -/
theorem exists_inside {value before : Text} (dotless : '.' ∉ front)
    (ends : ∀ c ∈ front.getLast?, isBound c = false)
    (whole : before ++ (reference ++ after) = front ++ value) :
    ∃ inside, before = front ++ inside ∧ value = inside ++ (reference ++ after) := by
  rcases append_eq_append_iff.mp whole with ⟨cross, left, right⟩ | ⟨inside, left, right⟩
  · -- A character of the reference at the end of `front` would be a path character.
    suffices empty : cross = [] by
      subst empty
      exact ⟨[], by simpa using left.symm, by simpa using right.symm⟩
    by_contra occupied
    rcases append_eq_append_iff.mp right with ⟨more, crossed, -⟩ | ⟨more, split, -⟩
    · exact dotless (by simp [left, crossed, isReference.mem_dot])
    · have last := getLast?_eq_some_getLast occupied
      have path := isReference.isPathChar (c := cross.getLast occupied)
        (by rw [split]; exact mem_append_left _ (getLast_mem occupied))
      have free := ends (cross.getLast occupied) (by rw [left, getLast?_append, last]; rfl)
      rw [isPathChar_of_not_isBound free] at path
      cases path
  · exact ⟨inside, left, right⟩

/-- A reference in a property stands in its value. -/
theorem exists_property {before key value : Text}
    (found : property? (trim (before ++ (reference ++ after))) = some (key, value)) :
    ∃ lead inside, Framed lead [] ∧ before = lead ++ inside ∧ trimLeft inside = inside ∧
      value = inside ++ (reference ++ trimRight after) ∧
      ∀ word, Solid word → property? (trim (before ++ (word ++ after))) =
        some (key, inside ++ (word ++ trimRight after)) := by
  obtain ⟨outer, outerBlank, cut⟩ := exists_trimLeft before
  rw [isReference.solid.trim_append] at found
  obtain ⟨lead, space, keyed, spaced, whole, solid, address, single⟩ := property?_iff.mp found
  have framed := framed_of_isKeyed keyed spaced
  obtain ⟨inside, left, right⟩ := exists_inside isReference framed.dotless framed.begins
    (whole.trans (append_assoc lead space value).symm)
  have solidInside : ∀ c ∈ inside.head?, isBlank c = false := by
    intro c head
    refine solid c ?_
    rw [right]
    exact mem_head?_append_of_mem_head? head
  refine ⟨outer ++ (lead ++ space), inside, ?_, ?_, trimLeft_of_head solidInside, right, ?_⟩
  · exact (Framed.of_allBlank outerBlank (.of_allBlank allBlank_nil)).append framed
  · rw [append_assoc, ← left, ← cut]
  · intro word solidWord
    rw [solidWord.trim_append, left]
    refine property?_iff.mpr ⟨lead, space, keyed, spaced, by simp, ?_, ?_, ?_⟩
    · refine head_append solidInside ?_
      rw [head?_append_of_ne_nil _ solidWord.occupied]
      exact solidWord.trimmed.head
    · have heads (word : Text) (solidWord : Solid word) :
          (word ++ trimRight after).head? ≠ some '/' := by
        rw [head?_append_of_ne_nil _ solidWord.occupied]
        exact solidWord.slashless
      rw [right, ← append_assoc, isPrefixOf_slashes_append _ (heads _ isReference.solid)] at address
      rw [← append_assoc, isPrefixOf_slashes_append _ (heads _ solidWord), address]
    · rw [right] at single
      simp only [mem_append, not_or] at single ⊢
      exact ⟨single.1, solidWord.single, single.2.2⟩

theorem referenceIn?_flatMap {lines : List Text}
    (quiet : ∀ line ∈ lines, referenceIn? reference line = none) :
    referenceIn? reference (lines.flatMap (· ++ ['\n'])) = none := by
  induction lines with
  | nil => exact referenceIn?_of_dotless isReference (by simp)
  | cons line lines ih =>
    have feed : Framed [] ['\n'] := .of_allBlank rfl (.of_allBlank rfl)
    have first : referenceIn? reference (line ++ ['\n']) = none := by
      have framed := feed.referenceIn? isReference line
      rwa [quiet line mem_cons_self] at framed
    rw [flatMap_cons, referenceIn?_append isReference (.inl ?_), first,
      ih (forall_mem_cons.mp quiet).2]
    · rfl
    · intro c last
      rw [getLast?_append] at last
      cases last
      decide

/-- The place of a reference in lines of which those before it mention none. -/
theorem exists_joined {lines behind : List Text} {before : Text}
    (quiet : ∀ line ∈ lines, referenceIn? reference line = none)
    (found : referenceIn? reference (before ++ (reference ++ after)) = some before.length) :
    ∃ front back,
      referenceIn? reference (front ++ (reference ++ back)) = some front.length ∧
      ∀ word, Solid word →
        trim (joinLines (lines ++ (before ++ (word ++ after)) :: behind)) =
          front ++ (word ++ back) := by
  obtain ⟨fed, isFed⟩ : ∃ fed, fed = lines.flatMap (· ++ ['\n']) := ⟨_, rfl⟩
  obtain ⟨lead, leadBlank, left⟩ := exists_trimLeft (fed ++ before)
  obtain ⟨tail, tailBlank, right⟩ := exists_trimRight (after ++ feedLines behind)
  refine ⟨trimLeft (fed ++ before), trimRight (after ++ feedLines behind), ?_, ?_⟩
  · refine (Framed.of_allBlank leadBlank (.of_allBlank tailBlank)).referenceIn?_place isReference ?_
    rw [← left, ← right]
    have feeds : ∀ c ∈ fed.getLast?, isBound c = false := by
      rw [isFed]
      rcases eq_nil_or_concat lines with rfl | ⟨earlier, last, rfl⟩
      · exact fun c member => nomatch member
      · intro c member
        rw [concat_eq_append, flatMap_append, flatMap_singleton,
          ← append_assoc, getLast?_concat] at member
        cases member
        decide
    have heads : ∀ c ∈ (feedLines behind).head?, Sql.isPathChar c = false := by
      cases behind with
      | nil => exact fun c member => nomatch member
      | cons line behind =>
        rintro c ⟨⟩
        decide +kernel
    have same : (fed ++ before) ++ (reference ++ (after ++ feedLines behind)) =
        fed ++ ((before ++ (reference ++ after)) ++ feedLines behind) := by simp
    rw [same, referenceIn?_append isReference (.inl feeds),
      referenceIn?_append isReference (.inr heads), found, isFed,
      referenceIn?_flatMap isReference quiet]
    simp [Nat.add_comm]
  · intro word solid
    rw [joinLines_append_cons, ← isFed, ← solid.trim_append]
    simp

end Pieces

end LookML.Lint
